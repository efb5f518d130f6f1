import Mathlib.Data.Fintype.Basic
import Pon.Sync.CriticalSection

/-!
# Lock discipline of critical sections

In every run whose suspending sections are entered with no shadowed key, a thread locks a mutex
only while all keys that it holds are smaller, no cycle of waiting threads exists, and each pop
restores the frames as they were before the matching push. A single thread with three nested
sections on `{1}`, `{1, 2}` and `{3}` shows that the condition is needed: the second pop waits for
a mutex that the thread itself holds.
-/

namespace Pon.CriticalSection

open Pon.Transition

/-! ## Sorted key sets -/

variable {key : ℕ} {stack : Stack} {kept : List ℕ} {lock : HeldCriticalLock}
  {locks : List HeldCriticalLock} {saved : List Stack} {thread : Thread}

theorem mem_orderedKeys {keys : List ℕ} : key ∈ orderedKeys keys ↔ key ∈ keys := by
  simp [orderedKeys]

theorem orderedKeys_pairwise (keys : List ℕ) : (orderedKeys keys).Pairwise (· < ·) := by
  have hle : (orderedKeys keys).Pairwise (· ≤ ·) :=
    (List.pairwise_insertionSort (· ≤ ·) keys).sublist (List.dedup_sublist _)
  have hne : (orderedKeys keys).Pairwise (· ≠ ·) := List.nodup_dedup _
  exact hle.imp₂ (fun _ _ ↦ lt_of_le_of_ne) hne

theorem mem_activeLockKeys : key ∈ activeLockKeys stack ↔ key ∈ walkActiveKeys stack := mem_orderedKeys

/-! ## Suspending and giving back guards -/

theorem HeldCriticalLock.keep_nil_active (lock : HeldCriticalLock) :
    (lock.keep []).active = false := by
  rcases lock with ⟨key, owns, guard⟩
  cases owns <;> cases guard <;> rfl

@[simp]
theorem HeldCriticalLock.keep_key (kept : List ℕ) (lock : HeldCriticalLock) :
    (lock.keep kept).key = lock.key := by
  unfold keep; split <;> rfl

@[simp]
theorem HeldCriticalLock.keep_owns (kept : List ℕ) (lock : HeldCriticalLock) :
    (lock.keep kept).owns = lock.owns := by
  unfold keep; split <;> rfl

theorem HeldCriticalLock.keep_eq_self (h : lock.active = true → lock.key ∈ kept) :
    lock.keep kept = lock := by
  unfold keep
  cases hactive : lock.active
  · simp
  · simp [h hactive]

theorem walkActiveKeys_append (left right : Stack) :
    walkActiveKeys (left ++ right) = walkActiveKeys left ++ walkActiveKeys right := by
  simp [walkActiveKeys]

theorem walkActiveKeys_cons (frame : CriticalSectionFrame) (rest : Stack) :
    walkActiveKeys (frame :: rest) =
      (frame.locks.filter HeldCriticalLock.active).map HeldCriticalLock.key ++ walkActiveKeys rest := by
  simp [walkActiveKeys]

theorem mem_walkActiveKeys :
    key ∈ walkActiveKeys stack ↔
      ∃ frame ∈ stack, ∃ lock ∈ frame.locks, lock.active = true ∧ lock.key = key := by
  simp [walkActiveKeys, and_assoc]

theorem walkActiveKeys_keepGuards_nil (stack : Stack) : walkActiveKeys (keepGuards [] stack) = [] := by
  rw [List.eq_nil_iff_forall_not_mem]
  intro key hkey
  obtain ⟨frame, hframe, lock, hlock, hactive, -⟩ := mem_walkActiveKeys.mp hkey
  obtain ⟨original, -, rfl⟩ := List.mem_map.mp hframe
  obtain ⟨entry, -, rfl⟩ := List.mem_map.mp hlock
  simp [HeldCriticalLock.keep_nil_active] at hactive

theorem keepGuards_eq_self (h : ∀ key ∈ walkActiveKeys stack, key ∈ kept) :
    keepGuards kept stack = stack := by
  have hframe : ∀ frame ∈ stack,
      ({ frame with locks := frame.locks.map (HeldCriticalLock.keep kept) } : CriticalSectionFrame) =
        frame := by
    intro frame hmem
    have hlocks : frame.locks.map (HeldCriticalLock.keep kept) = frame.locks := by
      rw [List.map_congr_left (g := id), List.map_id]
      intro lock hlock
      refine HeldCriticalLock.keep_eq_self fun hactive ↦ h _ ?_
      exact mem_walkActiveKeys.mpr ⟨frame, hmem, lock, hlock, hactive, rfl⟩
    rw [hlocks]
  rw [keepGuards, List.map_congr_left (g := id) hframe, List.map_id]

/-- No entry takes the guard when every owned entry with the key still holds one. -/
theorem giveLock_eq_none (h : ∀ lock ∈ locks, lock.key = key → lock.owns = true → lock.guard = true) :
    giveLock key locks = none := by
  induction locks with
  | nil => rfl
  | cons lock rest ih =>
    have hrest := ih fun other hother ↦ h other (List.mem_cons_of_mem _ hother)
    have hhead : (lock.key == key && lock.owns && !lock.guard) = false := by
      by_cases hkey : lock.key = key
      · cases howns : lock.owns
        · simp
        · simp [h lock List.mem_cons_self hkey howns]
      · simp [hkey]
    simp [giveLock, hhead, hrest]

theorem HeldCriticalLock.keep_cons_of_ne (h : lock.key ≠ key) :
    lock.keep (key :: kept) = lock.keep kept := by
  simp [keep, h]

/-- Within the frame that gave up the guard, the guard returns to its own entry. -/
theorem giveLock_keep (hnodup : (locks.map HeldCriticalLock.key).Nodup) (hkept : key ∉ kept)
    (hactive : ∃ lock ∈ locks, lock.active = true ∧ lock.key = key) :
    giveLock key (locks.map (HeldCriticalLock.keep kept)) =
      some (locks.map (HeldCriticalLock.keep (key :: kept))) := by
  induction locks with
  | nil => simp at hactive
  | cons lock rest ih =>
    simp only [List.map_cons, List.nodup_cons] at hnodup
    by_cases hkey : lock.key = key
    · have hrest : ∀ other ∈ rest, other.key ≠ key := by
        intro other hother heq
        exact hnodup.1 (hkey.trans heq.symm ▸ List.mem_map_of_mem hother)
      have hlock : lock.active = true := by
        obtain ⟨found, hfound, hfoundActive, hfoundKey⟩ := hactive
        rcases List.mem_cons.mp hfound with rfl | hmem
        · exact hfoundActive
        · exact absurd hfoundKey (hrest found hmem)
      have htail : rest.map (HeldCriticalLock.keep kept) =
          rest.map (HeldCriticalLock.keep (key :: kept)) :=
        List.map_congr_left fun other hother ↦
          (HeldCriticalLock.keep_cons_of_ne (hrest other hother)).symm
      have howned : lock.owns = true ∧ lock.guard = true := by
        simpa [HeldCriticalLock.active] using hlock
      subst hkey
      have hsuspended : lock.keep kept = { lock with guard := false } := by
        simp [HeldCriticalLock.keep, hlock, hkept]
      have hreturned : lock.keep (lock.key :: kept) = lock := by
        simp [HeldCriticalLock.keep]
      simp only [List.map_cons, hsuspended, hreturned, htail, giveLock, howned.1]
      rcases lock with ⟨key, owns, guard⟩
      obtain ⟨rfl, rfl⟩ := howned
      simp
    · have hactive' : ∃ other ∈ rest, other.active = true ∧ other.key = key := by
        obtain ⟨found, hfound, hfoundActive, hfoundKey⟩ := hactive
        rcases List.mem_cons.mp hfound with rfl | hmem
        · exact absurd hfoundKey hkey
        · exact ⟨found, hmem, hfoundActive, hfoundKey⟩
      simp [giveLock, hkey, ih hnodup.2 hactive', HeldCriticalLock.keep_cons_of_ne hkey]

/-- Every frame names each key at most once. -/
def FramesNodup (stack : Stack) : Prop :=
  ∀ frame ∈ stack, (frame.locks.map HeldCriticalLock.key).Nodup

/-- Without shadowing, the first owned entry without a guard is the one it was taken from. -/
theorem giveGuard_keepGuards (hframes : FramesNodup stack) (hunique : (walkActiveKeys stack).Nodup)
    (hshadow : shadowed stack = false) (hkept : key ∉ kept) (hactive : key ∈ walkActiveKeys stack) :
    giveGuard key (keepGuards kept stack) = keepGuards (key :: kept) stack := by
  induction stack with
  | nil => simp [walkActiveKeys] at hactive
  | cons frame rest ih =>
    have hframesRest : FramesNodup rest := fun other hother ↦
      hframes other (List.mem_cons_of_mem _ hother)
    rw [walkActiveKeys_cons] at hunique hactive
    have hsplit := List.nodup_append.mp hunique
    simp only [shadowed, Bool.or_eq_false_iff] at hshadow
    simp only [keepGuards, List.map_cons, giveGuard]
    by_cases hhere : ∃ lock ∈ frame.locks, lock.active = true ∧ lock.key = key
    · rw [giveLock_keep (hframes frame List.mem_cons_self) hkept hhere]
      have hlater : ∀ other ∈ rest, ∀ lock ∈ other.locks,
          lock.keep kept = lock.keep (key :: kept) := by
        intro other hother lock hlock
        by_cases hkey : lock.key = key
        · obtain ⟨found, hfound, hfoundActive, hfoundKey⟩ := hhere
          have hinactive : lock.active = false := by
            by_contra hcontra
            have hfirst : key ∈ (frame.locks.filter HeldCriticalLock.active).map
                HeldCriticalLock.key :=
              List.mem_map.mpr ⟨found, List.mem_filter.mpr ⟨hfound, hfoundActive⟩, hfoundKey⟩
            have hsecond : key ∈ walkActiveKeys rest :=
              mem_walkActiveKeys.mpr ⟨other, hother, lock, hlock, by simpa using hcontra, hkey⟩
            exact hsplit.2.2 key hfirst key hsecond rfl
          simp [HeldCriticalLock.keep, hinactive]
        · exact (HeldCriticalLock.keep_cons_of_ne hkey).symm
      simp only [List.cons.injEq, true_and]
      refine List.map_congr_left fun other hother ↦ ?_
      rw [List.map_congr_left (hlater other hother)]
    · have hrest : key ∈ walkActiveKeys rest := by
        rcases List.mem_append.mp hactive with hfirst | hlater
        · obtain ⟨lock, hlock, hkey⟩ := List.mem_map.mp hfirst
          obtain ⟨hmem, hlockActive⟩ := List.mem_filter.mp hlock
          exact absurd ⟨lock, hmem, hlockActive, hkey⟩ hhere
        · exact hlater
      -- an owned entry of this frame with the key would shadow the active one further in
      have hnone : giveLock key (frame.locks.map (HeldCriticalLock.keep kept)) = none := by
        refine giveLock_eq_none fun entry hentry hkey howns ↦ ?_
        obtain ⟨lock, hlock, rfl⟩ := List.mem_map.mp hentry
        rw [HeldCriticalLock.keep_key] at hkey
        have hinactive : lock.active = false := by
          by_contra hcontra
          exact hhere ⟨lock, hlock, by simpa using hcontra, hkey⟩
        have hself : lock.keep kept = lock := HeldCriticalLock.keep_eq_self (by simp [hinactive])
        rw [hself] at howns ⊢
        by_contra hguard
        have hany := hshadow.1
        rw [List.any_eq_false] at hany
        refine hany lock hlock ?_
        have hcontains : lock.key ∈ activeLockKeys rest := hkey ▸ mem_activeLockKeys.mpr hrest
        simpa [howns, hcontains] using hguard
      have hlocks : frame.locks.map (HeldCriticalLock.keep kept) =
          frame.locks.map (HeldCriticalLock.keep (key :: kept)) := by
        refine List.map_congr_left fun lock hlock ↦ ?_
        by_cases hkey : lock.key = key
        · have hinactive : lock.active = false := by
            by_contra hcontra
            exact hhere ⟨lock, hlock, by simpa using hcontra, hkey⟩
          simp [HeldCriticalLock.keep, hinactive]
        · exact (HeldCriticalLock.keep_cons_of_ne hkey).symm
      have htail := ih hframesRest hsplit.2.1 hshadow.2 hrest
      simp only [keepGuards] at htail
      rw [hnone]
      simp only [htail, hlocks]

/-- Giving back all suspended guards in turn recovers the frames. -/
theorem keepGuards_activeLockKeys (stack : Stack) :
    keepGuards (activeLockKeys stack) stack = stack :=
  keepGuards_eq_self fun _ hkey ↦ mem_activeLockKeys.mpr hkey

/-! ## Frames over a snapshot -/

/-- How the frame vector and the recorded snapshots of an idle thread fit together. Each frame
either re-enters locks that are active in the snapshot and owns nothing, or owns all its locks and
has suspended every guard of the snapshot. -/
inductive Nested : Stack → List Stack → Prop
  | nil : Nested [] []
  | reenter {snapshot : Stack} {saved : List Stack} {locks : List HeldCriticalLock} :
      Nested snapshot saved → (locks.map HeldCriticalLock.key).Nodup →
      (∀ lock ∈ locks, lock.owns = false ∧ lock.guard = false) →
      Nested (snapshot ++ [⟨locks, []⟩]) (snapshot :: saved)
  | acquire {snapshot : Stack} {saved : List Stack} {locks : List HeldCriticalLock} :
      Nested snapshot saved → shadowed snapshot = false → (locks.map HeldCriticalLock.key).Nodup →
      (∀ lock ∈ locks, lock.owns = true ∧ lock.guard = true) →
      Nested (keepGuards [] snapshot ++ [⟨locks, activeLockKeys snapshot⟩]) (snapshot :: saved)

theorem FramesNodup.keepGuards (h : FramesNodup stack) (kept : List ℕ) :
    FramesNodup (keepGuards kept stack) := by
  intro frame hframe
  obtain ⟨original, horiginal, rfl⟩ := List.mem_map.mp hframe
  have hkeys : (original.locks.map (HeldCriticalLock.keep kept)).map HeldCriticalLock.key =
      original.locks.map HeldCriticalLock.key := by
    rw [List.map_map]
    exact List.map_congr_left fun lock _ ↦ lock.keep_key kept
  rw [hkeys]
  exact h original horiginal

variable {frame : CriticalSectionFrame} {thread' : Thread} {activeKeys suspended todo : List ℕ}

theorem FramesNodup.append {left : Stack} (h : FramesNodup left)
    (hframe : (frame.locks.map HeldCriticalLock.key).Nodup) : FramesNodup (left ++ [frame]) := by
  intro other hother
  rcases List.mem_append.mp hother with hleft | hright
  · exact h other hleft
  · rw [List.mem_singleton.mp hright]
    exact hframe

theorem Nested.framesNodup (h : Nested stack saved) : FramesNodup stack := by
  induction h with
  | nil => intro frame hframe; simp at hframe
  | reenter _ hnodup _ ih => exact ih.append hnodup
  | acquire _ _ hnodup _ ih => exact (ih.keepGuards []).append hnodup

/-- The active keys are pairwise different: they all sit in one frame. -/
theorem Nested.walkActiveKeys_nodup (h : Nested stack saved) : (walkActiveKeys stack).Nodup := by
  induction h with
  | nil => simp [walkActiveKeys]
  | @reenter snapshot _ locks _ _ hidle ih =>
    have hnone : locks.filter HeldCriticalLock.active = [] := by
      rw [List.filter_eq_nil_iff]
      intro lock hlock
      simp [HeldCriticalLock.active, hidle lock hlock]
    rw [walkActiveKeys_append, walkActiveKeys_cons, hnone]
    simpa [walkActiveKeys] using ih
  | @acquire snapshot _ locks _ _ hnodup _ _ =>
    rw [walkActiveKeys_append, walkActiveKeys_keepGuards_nil, walkActiveKeys_cons]
    simp only [List.nil_append]
    rw [show walkActiveKeys [] = [] from rfl, List.append_nil]
    exact hnodup.sublist (List.filter_sublist.map _)

theorem Nested.owns_of_guard (h : Nested stack saved) :
    ∀ frame ∈ stack, ∀ lock ∈ frame.locks, lock.guard = true → lock.owns = true := by
  induction h with
  | nil => intro frame hframe; simp at hframe
  | reenter _ _ hidle ih =>
    intro frame hframe lock hlock hguard
    rcases List.mem_append.mp hframe with hold | hnew
    · exact ih frame hold lock hlock hguard
    · rw [List.mem_singleton.mp hnew] at hlock
      simp [(hidle lock hlock).2] at hguard
  | acquire _ _ _ howned ih =>
    intro frame hframe lock hlock hguard
    rcases List.mem_append.mp hframe with hold | hnew
    · obtain ⟨original, horiginal, rfl⟩ := List.mem_map.mp hold
      obtain ⟨entry, hentry, rfl⟩ := List.mem_map.mp hlock
      rw [HeldCriticalLock.keep_owns]
      have hheld : entry.guard = true := by
        unfold HeldCriticalLock.keep at hguard
        split at hguard
        · simp at hguard
        · exact hguard
      exact ih original horiginal entry hentry hheld
    · rw [List.mem_singleton.mp hnew] at hlock
      exact (howned lock hlock).1

/-! ## Invariant of a thread -/

/-- Entries with their keys, in the shape that a section which suspends nothing leaves behind. -/
structure Reentering (snapshot stack : Stack) (activeKeys suspended todo : List ℕ)
    (locks : List HeldCriticalLock) : Prop where
  stack_eq : stack = snapshot
  suspended_eq : suspended = []
  todo_active : ∀ key ∈ todo, key ∈ activeKeys
  idle : ∀ lock ∈ locks, lock.owns = false ∧ lock.guard = false

/-- A section that takes all its locks over a snapshot without guards. -/
structure Acquiring (snapshot stack : Stack) (activeKeys suspended : List ℕ)
    (locks : List HeldCriticalLock) : Prop where
  unshadowed : shadowed snapshot = false
  stack_eq : stack = keepGuards [] snapshot
  suspended_eq : suspended = activeLockKeys snapshot
  activeKeys_eq : activeKeys = activeLockKeys snapshot
  owned : ∀ lock ∈ locks, lock.owns = true ∧ lock.guard = true

def Thread.Inv (thread : Thread) : Prop :=
  match thread.phase with
  | .idle => Nested thread.stack thread.saved
  | .acquiring activeKeys suspended todo locks =>
    ∃ snapshot saved, thread.saved = snapshot :: saved ∧ Nested snapshot saved ∧
      (locks.map HeldCriticalLock.key ++ todo).Pairwise (· < ·) ∧
      (Reentering snapshot thread.stack activeKeys suspended todo locks ∨
        Acquiring snapshot thread.stack activeKeys suspended locks)
  | .restoring todo =>
    ∃ snapshot saved, thread.saved = snapshot :: saved ∧ Nested snapshot saved ∧
      (todo = [] ∧ thread.stack = snapshot ∨
        ∃ restored, restored ++ todo = activeLockKeys snapshot ∧ shadowed snapshot = false ∧
          thread.stack = keepGuards restored snapshot)

theorem Thread.Inv.beginPush (h : thread.Inv) (hidle : thread.phase = .idle) (keys : List ℕ)
    (hguard : suspends thread.stack (orderedKeys keys) = true → shadowed thread.stack = false) :
    (thread.beginPush (orderedKeys keys)).Inv := by
  have hnested : Nested thread.stack thread.saved := by simpa [Thread.Inv, hidle] using h
  refine ⟨thread.stack, thread.saved, rfl, hnested, by simpa using orderedKeys_pairwise keys, ?_⟩
  by_cases hsuspends : suspends thread.stack (orderedKeys keys) = true
  · right
    simp only [Thread.beginPush, hsuspends, if_true, suspendActiveLocks]
    exact ⟨hguard hsuspends, rfl, rfl, rfl, by simp⟩
  · simp only [Thread.beginPush, hsuspends]
    by_cases hempty : thread.stack = []
    · right
      simp only [hempty]
      exact ⟨rfl, rfl, rfl, rfl, by simp⟩
    · left
      refine ⟨rfl, rfl, ?_, by simp⟩
      simpa [suspends, allActive, hempty] using hsuspends

theorem Thread.Inv.beginPop (h : thread.Inv) (hidle : thread.phase = .idle)
    (hpop : thread.beginPop = some thread') : thread'.Inv := by
  have hnested : Nested thread.stack thread.saved := by simpa [Thread.Inv, hidle] using h
  rcases thread with ⟨stack, phase, saved⟩
  simp only at hnested
  cases hnested with
  | nil => simp [Thread.beginPop] at hpop
  | @reenter snapshot rest locks hsnapshot _ _ =>
    have heq : thread' = ⟨snapshot, .restoring [], snapshot :: rest⟩ := by
      simpa [Thread.beginPop] using hpop.symm
    subst heq
    exact ⟨snapshot, rest, rfl, hsnapshot, .inl ⟨rfl, rfl⟩⟩
  | @acquire snapshot rest locks hsnapshot hshadow _ _ =>
    have heq : thread' =
        ⟨keepGuards [] snapshot, .restoring (activeLockKeys snapshot), snapshot :: rest⟩ := by
      simpa [Thread.beginPop] using hpop.symm
    subst heq
    exact ⟨snapshot, rest, rfl, hsnapshot, .inr ⟨[], rfl, hshadow, rfl⟩⟩

/-- The next entry of a frame under construction is owned exactly when its mutex is locked. -/
theorem Thread.Inv.advance_acquiring
    (h : Thread.Inv ⟨stack, .acquiring activeKeys suspended (key :: todo) locks, saved⟩) :
    let owned := !(suspended.isEmpty && activeKeys.contains key)
    Thread.Inv ⟨stack, .acquiring activeKeys suspended todo (locks ++ [⟨key, owned, owned⟩]), saved⟩ := by
  obtain ⟨snapshot, rest, hsaved, hnested, hsorted, hmode⟩ := h
  refine ⟨snapshot, rest, hsaved, hnested, by simpa using hsorted, ?_⟩
  rcases hmode with hre | hac
  · left
    have howned : (!(suspended.isEmpty && activeKeys.contains key)) = false := by
      simp [hre.suspended_eq, hre.todo_active key List.mem_cons_self]
    refine ⟨hre.stack_eq, hre.suspended_eq,
      fun other hother ↦ hre.todo_active other (List.mem_cons_of_mem _ hother), ?_⟩
    intro lock hlock
    rcases List.mem_append.mp hlock with hold | hnew
    · exact hre.idle lock hold
    · rw [List.mem_singleton.mp hnew]
      exact ⟨howned, howned⟩
  · right
    have howned : (!(suspended.isEmpty && activeKeys.contains key)) = true := by
      rw [hac.activeKeys_eq, hac.suspended_eq]
      cases activeLockKeys snapshot <;> simp
    refine ⟨hac.unshadowed, hac.stack_eq, hac.suspended_eq, hac.activeKeys_eq, ?_⟩
    intro lock hlock
    rcases List.mem_append.mp hlock with hold | hnew
    · exact hac.owned lock hold
    · rw [List.mem_singleton.mp hnew]
      exact ⟨howned, howned⟩

theorem Thread.Inv.finish_push
    (h : Thread.Inv ⟨stack, .acquiring activeKeys suspended [] locks, saved⟩) :
    Thread.Inv ⟨stack ++ [⟨locks, suspended⟩], .idle, saved⟩ := by
  obtain ⟨snapshot, rest, hsaved, hnested, hsorted, hmode⟩ := h
  simp only at hsaved
  subst hsaved
  have hnodup : (locks.map HeldCriticalLock.key).Nodup := by
    rw [List.append_nil] at hsorted
    exact hsorted.imp fun hlt ↦ hlt.ne
  rcases hmode with hre | hac
  · have hstack := hre.stack_eq
    simp only at hstack
    rw [hstack, hre.suspended_eq]
    exact Nested.reenter hnested hnodup hre.idle
  · have hstack := hac.stack_eq
    simp only at hstack
    rw [hstack, hac.suspended_eq]
    exact Nested.acquire hnested hac.unshadowed hnodup hac.owned

theorem Thread.Inv.advance_restoring (h : Thread.Inv ⟨stack, .restoring (key :: todo), saved⟩) :
    Thread.Inv ⟨giveGuard key stack, .restoring todo, saved⟩ := by
  obtain ⟨snapshot, rest, hsaved, hnested, hmode⟩ := h
  rcases hmode with ⟨hnil, -⟩ | ⟨restored, hkeys, hshadow, hstack⟩
  · simp at hnil
  · have hsorted := orderedKeys_pairwise (walkActiveKeys snapshot)
    have hfresh : key ∉ restored := by
      intro hmem
      rw [show orderedKeys (walkActiveKeys snapshot) = restored ++ key :: todo from hkeys.symm,
        List.pairwise_append] at hsorted
      exact absurd (hsorted.2.2 key hmem key List.mem_cons_self) (lt_irrefl key)
    have hactive : key ∈ walkActiveKeys snapshot := by
      rw [← mem_activeLockKeys, ← hkeys]
      simp
    have hgive := giveGuard_keepGuards hnested.framesNodup hnested.walkActiveKeys_nodup hshadow
      hfresh hactive
    have hreorder : keepGuards (key :: restored) snapshot = keepGuards (restored ++ [key]) snapshot := by
      have hcontains (other : ℕ) :
          (key :: restored).contains other = (restored ++ [key]).contains other := by
        rw [Bool.eq_iff_iff, List.contains_iff_mem, List.contains_iff_mem]
        simp [or_comm]
      have hkeep : HeldCriticalLock.keep (key :: restored) = HeldCriticalLock.keep (restored ++ [key]) := by
        funext lock
        simp only [HeldCriticalLock.keep, hcontains]
      simp only [keepGuards, hkeep]
    refine ⟨snapshot, rest, hsaved, hnested, .inr ⟨restored ++ [key], ?_, hshadow, ?_⟩⟩
    · simpa using hkeys
    · simp only at hstack
      rw [hstack, hgive, hreorder]

theorem Thread.Inv.restored (h : Thread.Inv ⟨stack, .restoring [], saved⟩) :
    ∃ rest, saved = stack :: rest ∧ Nested stack rest := by
  obtain ⟨snapshot, rest, hsaved, hnested, ⟨-, hstack⟩ | ⟨restored, hkeys, -, hstack⟩⟩ := h
  · simp only at hsaved hstack
    exact ⟨rest, by rw [hsaved, hstack], hstack ▸ hnested⟩
  · have heq : stack = snapshot := by
      simp only at hstack
      rw [hstack, show restored = activeLockKeys snapshot by simpa using hkeys,
        keepGuards_activeLockKeys]
    exact ⟨rest, heq ▸ hsaved, heq ▸ hnested⟩

theorem Thread.Inv.advance (h : thread.Inv) (hstep : thread.advance = some thread') :
    thread'.Inv := by
  rcases thread with ⟨stack, phase, saved⟩
  cases phase with
  | idle => simp [Thread.advance] at hstep
  | acquiring activeKeys suspended todo locks =>
    cases todo with
    | nil =>
      have heq : thread' = ⟨stack ++ [⟨locks, suspended⟩], .idle, saved⟩ := by
        simpa [Thread.advance] using hstep.symm
      exact heq ▸ h.finish_push
    | cons key todo =>
      simp only [Thread.advance, Option.some.injEq] at hstep
      exact hstep ▸ h.advance_acquiring
  | restoring todo =>
    cases todo with
    | nil =>
      obtain ⟨rest, rfl, hnested⟩ := h.restored
      have heq : thread' = ⟨stack, .idle, rest⟩ := by simpa [Thread.advance] using hstep.symm
      exact heq ▸ hnested
    | cons key todo =>
      simp only [Thread.advance, Option.some.injEq] at hstep
      exact hstep ▸ h.advance_restoring

/-! ## Order of acquisitions -/

theorem keepGuards_guard {snapshot : Stack} (h : Nested snapshot saved)
    (hframe : frame ∈ keepGuards kept snapshot) (hlock : lock ∈ frame.locks)
    (hguard : lock.guard = true) : lock.key ∈ kept := by
  obtain ⟨original, horiginal, rfl⟩ := List.mem_map.mp hframe
  obtain ⟨entry, hentry, rfl⟩ := List.mem_map.mp hlock
  rw [HeldCriticalLock.keep_key]
  unfold HeldCriticalLock.keep at hguard
  split at hguard
  · simp at hguard
  · next hkeep =>
    have hactive : entry.active = true := by
      simp [HeldCriticalLock.active, hguard, h.owns_of_guard original horiginal entry hentry hguard]
    simpa [hactive] using hkeep

theorem Thread.Inv.held_lt (h : thread.Inv) (hnext : thread.nextLock = some key) :
    ∀ held ∈ thread.heldKeys, held < key := by
  intro held hheld
  obtain ⟨lock, hlock, rfl⟩ := List.mem_map.mp hheld
  obtain ⟨hmem, hguard⟩ := List.mem_filter.mp hlock
  rcases thread with ⟨stack, phase, saved⟩
  cases phase with
  | idle => simp [Thread.nextLock] at hnext
  | acquiring activeKeys suspended todo locks =>
    obtain ⟨snapshot, rest, -, hnested, hsorted, hmode⟩ := h
    cases todo with
    | nil => simp [Thread.nextLock] at hnext
    | cons first todo =>
      rcases hmode with hre | hac
      · have hmemKeys := hre.todo_active first List.mem_cons_self
        simp [Thread.nextLock, hre.suspended_eq, hmemKeys] at hnext
      · have hfirst : first = key := by
          simp only [Thread.nextLock] at hnext
          split at hnext
          · simp at hnext
          · simpa using hnext
        rcases List.mem_append.mp hmem with hstack | hown
        · obtain ⟨frame, hframe, hentry⟩ := List.mem_flatMap.mp hstack
          have hframe' : frame ∈ keepGuards [] snapshot := hac.stack_eq ▸ hframe
          exact absurd (keepGuards_guard hnested hframe' hentry hguard) List.not_mem_nil
        · rw [List.pairwise_append] at hsorted
          exact hfirst ▸ hsorted.2.2 lock.key (List.mem_map_of_mem hown) first List.mem_cons_self
  | restoring todo =>
    obtain ⟨snapshot, rest, -, hnested, hmode⟩ := h
    cases todo with
    | nil => simp [Thread.nextLock] at hnext
    | cons first todo =>
      have hfirst : first = key := by simpa [Thread.nextLock] using hnext
      rcases hmode with ⟨hnil, -⟩ | ⟨restored, hkeys, -, hstack⟩
      · simp at hnil
      · have hentry : lock ∈ stack.flatMap CriticalSectionFrame.locks := by simpa using hmem
        obtain ⟨frame, hframe, hlocks⟩ := List.mem_flatMap.mp hentry
        have hframe' : frame ∈ keepGuards restored snapshot := hstack ▸ hframe
        have hrestored := keepGuards_guard hnested hframe' hlocks hguard
        have hsorted := orderedKeys_pairwise (walkActiveKeys snapshot)
        rw [show orderedKeys (walkActiveKeys snapshot) = restored ++ first :: todo from hkeys.symm,
          List.pairwise_append] at hsorted
        exact hfirst ▸ hsorted.2.2 lock.key hrestored first List.mem_cons_self

variable {T : Type*}

/-- If acquisitions are ordered, following waiting threads only raises the key waited for. -/
theorem le_held_of_waits {system : System T}
    (horder : ∀ t key, (system t).nextLock = some key → ∀ held ∈ (system t).heldKeys, held < key)
    {t t' : T} (h : Relation.TransGen (WaitsFor system) t t')
    (hkey : (system t).nextLock = some key) : ∃ held ∈ (system t').heldKeys, key ≤ held := by
  induction h with
  | single hwait =>
    obtain ⟨other, hother, hheld⟩ := hwait
    rw [hkey, Option.some.injEq] at hother
    exact ⟨other, hheld, hother.le⟩
  | tail _ hwait ih =>
    obtain ⟨held, hheld, hle⟩ := ih
    obtain ⟨other, hother, hheld'⟩ := hwait
    exact ⟨other, hheld', hle.trans (horder _ other hother held hheld).le⟩

/-! ## All runs -/

theorem inv_step [DecidableEq T] (system : System T) (label : T × Act)
    (system' : System T) (hinv : ∀ t, (system t).Inv) (hguard : EntersUnshadowed system label)
    (hstep : Step system label system') : ∀ t, (system' t).Inv := by
  obtain ⟨t, act⟩ := label
  obtain ⟨thread, hnext, -, rfl⟩ := hstep
  have hthread : thread.Inv := by
    cases act with
    | push keys =>
      simp only [Thread.next] at hnext
      split at hnext
      · next hidle =>
        rw [Option.some.injEq] at hnext
        exact hnext ▸ (hinv t).beginPush hidle keys (hguard keys rfl)
      · simp at hnext
    | pop =>
      simp only [Thread.next] at hnext
      split at hnext
      · next hidle => exact (hinv t).beginPop hidle hnext
      · simp at hnext
    | advance => exact (hinv t).advance hnext
  intro t'
  by_cases h : t' = t
  · subst h
    simpa using hthread
  · simpa [Function.update_of_ne h] using hinv t'

theorem inv_of_reachable [DecidableEq T] {system : System T}
    (h : Reachable initial EntersUnshadowed Step system) : ∀ t, (system t).Inv := by
  refine Reachable.invariant (fun system ↦ ∀ t, (system t).Inv) ?_ ?_ h
  · intro start hstart t
    rw [hstart t]
    exact Nested.nil
  · exact inv_step

/-- The lock discipline, for any number of threads: acquisitions are in increasing key order, no
cycle of waiting threads exists, and a pop returns with the frames recorded at the matching push. -/
theorem critical_section_discipline {T : Type*} [DecidableEq T] (system : System T)
    (h : Reachable initial EntersUnshadowed Step system) :
    (∀ t key, (system t).nextLock = some key → ∀ held ∈ (system t).heldKeys, held < key) ∧
      (∀ t, ¬ Relation.TransGen (WaitsFor system) t t) ∧
      ∀ t system', (system t).phase = .restoring [] → Step system (t, .advance) system' →
        ∃ snapshot saved, (system t).saved = snapshot :: saved ∧
          system' t = ⟨snapshot, .idle, saved⟩ := by
  have hinv := inv_of_reachable h
  have horder : ∀ t key, (system t).nextLock = some key → ∀ held ∈ (system t).heldKeys, held < key :=
    fun t _ hkey ↦ (hinv t).held_lt hkey
  refine ⟨horder, ?_, ?_⟩
  · intro t hcycle
    obtain ⟨key, hkey⟩ : ∃ key, (system t).nextLock = some key := by
      obtain ⟨t', hwait, -⟩ := Relation.TransGen.head'_iff.mp hcycle
      exact ⟨_, hwait.choose_spec.1⟩
    obtain ⟨held, hheld, hle⟩ := le_held_of_waits horder hcycle hkey
    exact absurd (horder t key hkey held hheld) (not_lt.mpr hle)
  · rintro t system' hphase ⟨thread, hnext, -, rfl⟩
    have hthread := hinv t
    rcases hsystem : system t with ⟨stack, phase, saved⟩
    rw [hsystem] at hthread hphase hnext
    subst hphase
    obtain ⟨rest, hsaved, -⟩ := hthread.restored
    refine ⟨stack, rest, hsaved, ?_⟩
    simpa [Thread.next, Thread.advance, hsaved] using hnext.symm

/-! ## Executing a schedule -/

/-- One step of a finite system, if the moving thread is not blocked. -/
def exec {T : Type*} [DecidableEq T] [Fintype T] (system : System T) (label : T × Act) :
    Option (System T) :=
  if label.2 = .advance ∧ ∃ t, ∃ key ∈ (system t).heldKeys, (system label.1).nextLock = some key then none
  else ((system label.1).next label.2).map (Function.update system label.1)

def start {T : Type*} : System T := fun _ ↦ ⟨[], .idle, []⟩

theorem step_of_exec [DecidableEq T] [Fintype T] {system system' : System T}
    {label : T × Act} (h : exec system label = some system') : Step system label system' := by
  unfold exec at h
  split at h
  · simp at h
  · next hfree =>
    obtain ⟨thread, hnext, rfl⟩ := Option.map_eq_some_iff.mp h
    refine ⟨thread, hnext, ?_, rfl⟩
    intro hact key hkey t hheld
    exact hfree ⟨hact, t, key, hheld, hkey⟩

/-- Whether `EntersUnshadowed` holds for one step. -/
def entersUnshadowed {T : Type*} (system : System T) (label : T × Act) : Bool :=
  match label.2 with
  | .push keys => !(suspends (system label.1).stack (orderedKeys keys) && shadowed (system label.1).stack)
  | _ => true

theorem entersUnshadowed_spec {system : System T} {label : T × Act}
    (h : entersUnshadowed system label = true) : EntersUnshadowed system label := by
  intro keys hact hsuspends
  simpa [entersUnshadowed, hact, hsuspends] using h

theorem reachable_of_exec [DecidableEq T] [Fintype T]
    {check : System T → T × Act → Bool} {guard : System T → T × Act → Prop}
    (hcheck : ∀ system label, check system label = true → guard system label)
    (schedule : List (T × Act)) {system : System T}
    (h : runLabels check exec start schedule = some system) : Reachable initial guard Step system :=
  runLabels_invariant _ (fun _ _ _ hreach hpass hexec ↦
    .next hreach (hcheck _ _ hpass) (step_of_exec hexec)) (.start fun _ ↦ rfl) h

/-- One thread is inside a section on `{2}`; another has entered a section on `{1, 2}` and waits
for the second lock. -/
theorem critical_section_discipline_contended :
    ∃ system : System Bool, (system true).nextLock = some 2 ∧ (system true).heldKeys = [1] ∧
      WaitsFor system true false ∧ ¬ Relation.TransGen (WaitsFor system) true true := by
  refine ⟨_, ?_, ?_, ?_, (critical_section_discipline _ (reachable_of_exec
    (fun _ _ ↦ entersUnshadowed_spec) [(false, .push [2]), (false, .advance), (false, .advance),
      (true, .push [2, 1]), (true, .advance)] rfl)).2.1 true⟩
  · rfl
  · rfl
  · exact ⟨2, rfl, by decide⟩

/-- Three nested sections of one thread, on `{1}`, `{1, 2}` and `{3}`. The pop of the innermost one
gives the guard of key 1 to the outermost frame, and the next pop then waits for that same mutex. -/
theorem critical_section_self_deadlock :
    (∃ system : System Unit, Reachable initial (fun _ _ ↦ True) Step system ∧
      (system ()).phase = .restoring [] ∧ (system ()).saved.head? ≠ some (system ()).stack) ∧
    ∃ system : System Unit, Reachable initial (fun _ _ ↦ True) Step system ∧
      (system ()).nextLock = some 1 ∧ 1 ∈ (system ()).heldKeys := by
  have hnested (schedule : List Act) (system : System Unit)
      (h : runLabels (fun _ _ ↦ true) exec start (schedule.map (Prod.mk ())) = some system) :
      Reachable initial (fun _ _ ↦ True) Step system :=
    reachable_of_exec (fun _ _ _ ↦ trivial) _ h
  refine ⟨⟨_, hnested [.push [1], .advance, .advance, .push [1, 2], .advance, .advance, .advance,
    .push [3], .advance, .advance, .pop, .advance, .advance] _ rfl, rfl, ?_⟩, ⟨_, hnested [.push [1],
    .advance, .advance, .push [1, 2], .advance, .advance, .advance, .push [3], .advance, .advance,
    .pop, .advance, .advance, .advance, .pop] _ rfl, rfl, ?_⟩⟩ <;> decide

end Pon.CriticalSection
