import Mathlib.Tactic.SplitIfs
import Pon.Tier.Machine

/-!
# Entries for on-stack replacement

A poll at a loop back edge loads the published entry and then the published header, and hands the
entry out if the header is its own; an installation stores the header and then the entry. The two
fields form a matching pair except between the two stores of an installation. So a poll hands out an
entry for another loop only if its loads and the stores of an installation for its header
interleave, or if two installations do.
-/

namespace Pon.Tier

/-- The next step of `thread` ends its poll for `header` and hands `entry` out. -/
def System.PollReturns (s : System) (thread : ThreadId) (header : ℕ) (entry : OsrEntry) : Prop :=
  ∃ f, s.tasks thread = some ⟨f, .osrPoll header, .pollHeader entry⟩ ∧
    (s.shared.functions f).osrLoopHeader = header

/-- The steps at which the pair of header and entry is read or written in order. -/
structure OsrOrderly (s : System) (label : Label) : Prop where
  /-- A header is stored while no poll for it holds an entry for another loop. -/
  headerStore : ∀ {thread answer f call compilation header}, label = .advance thread answer →
    s.tasks thread = some ⟨f, call, .installHeader compilation header⟩ →
    ∀ {other entry}, s.tasks other = some ⟨f, .osrPoll header, .pollHeader entry⟩ →
      entry.header = header
  /-- A poll loads the entry while no installation for its header has the entry of another loop
  still to replace. -/
  entryLoad : ∀ {thread answer f header}, label = .advance thread answer →
    s.tasks thread = some ⟨f, .osrPoll header, .pollEntry⟩ →
    ∀ {other call compilation}, s.tasks other = some ⟨f, call, .installOsr compilation⟩ →
      compilation.osrLoopHeader = some header →
      ∀ {entry}, (s.shared.functions f).osrEntry = some entry → entry.header = header
  /-- An entry is stored while the header is still the one stored with it. -/
  entryStore : ∀ {thread answer f call compilation header}, label = .advance thread answer →
    s.tasks thread = some ⟨f, call, .installOsr compilation⟩ →
    compilation.osrLoopHeader = some header → (s.shared.functions f).osrLoopHeader = header

section Advance

variable {sync : Bool} {answer : Answer} {s s' : Shared} {t t' : Task}

/-- Where a task that goes on can be, next to the pair. -/
theorem advance_next (h : t.advance sync answer s = (s', some t')) :
    t'.function = t.function ∧ t'.call = t.call ∧
    (∀ entry, t'.pc = .pollHeader entry →
      t.pc = .pollEntry ∧ (s.functions t.function).osrEntry = some entry ∧ s' = s) ∧
    ∀ compilation header, t'.pc = .installHeader compilation header →
      compilation.osrLoopHeader = some header := by
  obtain ⟨f, call, pc⟩ := t
  cases pc <;> simp only [Task.advance, Task.goto, Task.resume, Task.release] at h <;> grind

variable {entry : OsrEntry} {next : Option Task}

theorem advance_osrLoopHeader (h : t.advance sync answer s = (s', next)) (g : FunctionId) :
    (s'.functions g).osrLoopHeader = (s.functions g).osrLoopHeader ∨
    ∃ compilation header, t = ⟨g, t.call, .installHeader compilation header⟩ ∧
      (s'.functions g).osrLoopHeader = header ∧ next = some ⟨g, t.call, .installOsr compilation⟩ := by
  obtain ⟨f, call, pc⟩ := t
  cases pc <;> simp only [Task.advance, Task.goto, Task.resume, Task.release] at h <;> grind

/-- A published entry was there before, or is the one that an installation stores now. -/
theorem advance_osrEntry {g : FunctionId} (h : t.advance sync answer s = (s', next))
    (published : (s'.functions g).osrEntry = some entry) :
    (s.functions g).osrEntry = some entry ∧ (∀ call compilation,
      t ≠ ⟨g, call, .installOsr compilation⟩) ∨
    ∃ compilation, t = ⟨g, t.call, .installOsr compilation⟩ ∧ compilation.osrEntry = some entry := by
  obtain ⟨f, call, pc⟩ := t
  cases pc <;> simp only [Task.advance, Task.goto, Task.resume, Task.release] at h <;> grind

end Advance

/-- A poll that is about to succeed holds an entry for its header, and a published pair that does not
match is being replaced by an installation. -/
structure OsrInv (s : System) : Prop where
  polls : ∀ {thread f header entry}, s.tasks thread = some ⟨f, .osrPoll header, .pollHeader entry⟩ →
    (s.shared.functions f).osrLoopHeader = header → entry.header = header
  published : ∀ {f entry}, (s.shared.functions f).osrEntry = some entry →
    entry.header ≠ (s.shared.functions f).osrLoopHeader →
    ∃ thread call compilation, s.tasks thread = some ⟨f, call, .installOsr compilation⟩ ∧
      compilation.osrLoopHeader = some (s.shared.functions f).osrLoopHeader
  stored : ∀ {thread f call compilation header},
    s.tasks thread = some ⟨f, call, .installHeader compilation header⟩ →
    compilation.osrLoopHeader = some header

theorem osrInv_initial : OsrInv {} where
  polls h := by cases h
  published h := by cases h
  stored h := by cases h

variable {s : System} {thread : ThreadId} {sync : Bool}

variable {shared : Shared} {task : Task} {answer : Answer} {label : Label} {polls : ℕ}

/-- A task that replaces no task and is at none of the steps on the pair changes nothing. -/
theorem OsrInv.setTask (inv : OsrInv s) (idle : s.tasks thread = none)
    (functions : shared.functions = s.shared.functions)
    (poll : ∀ entry, task.pc ≠ .pollHeader entry)
    (header : ∀ compilation header, task.pc ≠ .installHeader compilation header) :
    OsrInv { s.setTask thread (some task) with shared := shared } where
  polls {other f _ entry} h := by
    rw [functions]
    by_cases same : other = thread
    · simp only [System.setTask, same, Function.update_self, Option.some.injEq] at h
      exact absurd (congrArg Task.pc h) (poll entry)
    · exact inv.polls (by simpa [System.setTask, same] using h)
  published h mismatch := by
    rw [functions] at h mismatch ⊢
    obtain ⟨other, call, compilation, running, stored⟩ := inv.published h mismatch
    have different : other ≠ thread := by
      rintro rfl
      rw [idle] at running
      cases running
    exact ⟨other, call, compilation, by simpa [System.setTask, different] using running, stored⟩
  stored {other _ _ compilation header'} h := by
    by_cases same : other = thread
    · simp only [System.setTask, same, Function.update_self, Option.some.injEq] at h
      exact absurd (congrArg Task.pc h) (header compilation header')
    · exact inv.stored (by simpa [System.setTask, same] using h)

theorem OsrInv.advance {next : Option Task} (inv : OsrInv s)
    (orderly : OsrOrderly s (.advance thread answer)) (running : s.tasks thread = some task)
    (h : task.advance sync answer s.shared = (shared, next)) :
    OsrInv { s.setTask thread next with shared := shared } where
  polls {other f header entry} hp hh := by
    by_cases same : other = thread
    · subst same
      obtain rfl : next = some ⟨f, .osrPoll header, .pollHeader entry⟩ := by
        simpa [System.setTask] using hp
      obtain ⟨hf, hcall, polled, -⟩ := advance_next h
      obtain ⟨hpc, hentry, rfl⟩ := polled entry rfl
      obtain ⟨f', call, pc⟩ := task
      obtain ⟨rfl, rfl, rfl⟩ : f = f' ∧ .osrPoll header = call ∧ pc = .pollEntry := ⟨hf, hcall, hpc⟩
      by_contra mismatch
      -- A mismatched pair is being replaced, for the header that this poll asks for.
      obtain ⟨installer, call, compilation, installing, stored⟩ :=
        inv.published hentry (fun matching ↦ mismatch (matching.trans hh))
      exact mismatch (orderly.entryLoad rfl running installing (stored.trans (congrArg some hh)) hentry)
    · have old : s.tasks other = some ⟨f, .osrPoll header, .pollHeader entry⟩ := by
        simpa [System.setTask, same] using hp
      rcases advance_osrLoopHeader h f with unchanged | ⟨compilation, stored, htask, hstore, -⟩
      · exact inv.polls old (unchanged ▸ hh)
      · obtain rfl : stored = header := hstore.symm.trans hh
        exact orderly.headerStore rfl (running.trans (congrArg some htask)) old
  published {f entry} hentry mismatch := by
    rcases advance_osrEntry h hentry with ⟨old, notInstalling⟩ | ⟨compilation, htask, isEntry⟩
    · rcases advance_osrLoopHeader h f with unchanged | ⟨compilation, header, htask, hstore, hnext⟩
      · obtain ⟨other, call, compilation, installing, stored⟩ :=
          inv.published old (unchanged ▸ mismatch)
        have different : other ≠ thread := by
          rintro rfl
          exact notInstalling call compilation (Option.some.inj (running.symm.trans installing))
        exact ⟨other, call, compilation, by simpa [System.setTask, different] using installing,
          stored.trans (congrArg some unchanged.symm)⟩
      · refine ⟨thread, task.call, compilation, by simp [System.setTask, hnext], ?_⟩
        rw [inv.stored (running.trans (congrArg some htask)), hstore]
    · -- The entry stored now matches the header, which is still the one stored before it.
      exfalso
      obtain ⟨header, hheader, rfl⟩ := Option.map_eq_some_iff.mp isEntry
      have published := orderly.entryStore rfl (running.trans (congrArg some htask)) hheader
      rcases advance_osrLoopHeader h f with unchanged | ⟨other, stored, htask', -, -⟩
      · exact mismatch (published.symm.trans unchanged.symm)
      · rw [htask'] at htask
        cases htask
  stored {other f call compilation header} hp := by
    by_cases same : other = thread
    · subst same
      obtain rfl : next = some ⟨f, call, .installHeader compilation header⟩ := by
        simpa [System.setTask] using hp
      exact (advance_next h).2.2.2 _ _ rfl
    · exact inv.stored (by simpa [System.setTask, same] using hp)

theorem OsrInv.step {s' : System} (inv : OsrInv s) (orderly : OsrOrderly s label)
    (h : s.Step sync label s') : OsrInv s' := by
  rcases h.cases with ⟨thread, f, call, idle, rfl, -⟩ |
    ⟨thread, answer, task, shared, next, rfl, running, hadvance, rfl⟩ |
    ⟨request, queue, idle, -, rfl⟩ | ⟨tasks, functions, -, -⟩
  · exact inv.setTask idle rfl (by cases call <;> simp [Call.firstPc])
      (by cases call <;> simp [Call.firstPc])
  · exact inv.advance orderly running hadvance
  · exact inv.setTask idle rfl (by simp) (by simp)
  · constructor
    · rw [tasks, functions]
      exact inv.polls
    · rw [tasks, functions]
      exact inv.published
    · rw [tasks]
      exact inv.stored

/-- In every run whose steps read and write the pair in order, a poll for a header hands out only
entries compiled for that header. -/
theorem osrPoll_returns_own_entry {sync : Bool} {s : System}
    (reachable : System.Reachable sync OsrOrderly s) {thread : ThreadId} {header : ℕ}
    {entry : OsrEntry} (returns : s.PollReturns thread header entry) : entry.header = header := by
  have inv : OsrInv s := by
    refine reachable.invariant OsrInv ?_ fun _ _ _ inv orderly h ↦ inv.step orderly h
    rintro _ rfl
    exact osrInv_initial
  obtain ⟨f, running, published⟩ := returns
  exact inv.polls running published

/-- Only `thread` has a task. -/
def System.Solo (s : System) (thread : ThreadId) : Prop := ∀ other ≠ thread, s.tasks other = none

/-- The steps of one thread while the others are idle, as long as an entry is stored under its own
header. -/
def System.soloRun? (sync : Bool) (thread : ThreadId) : System → List Answer → Option System :=
  Transition.runLabels
    (fun s _ ↦ match s.tasks thread with
      | some ⟨f, _, .installOsr compilation⟩ =>
        compilation.osrLoopHeader.all (· == (s.shared.functions f).osrLoopHeader)
      | _ => true)
    fun s answer ↦ s.step? sync (.advance thread answer)

theorem System.Solo.orderly (solo : s.Solo thread)
    (stored : ∀ {f call compilation header},
      s.tasks thread = some ⟨f, call, .installOsr compilation⟩ →
      compilation.osrLoopHeader = some header → (s.shared.functions f).osrLoopHeader = header) :
    OsrOrderly s (.advance thread answer) where
  headerStore := by
    rintro acting _ f call compilation header ⟨⟩ installing other entry polling
    by_cases same : other = thread
    · rw [same, installing] at polling
      cases polling
    · rw [solo other same] at polling
      cases polling
  entryLoad := by
    rintro acting _ f header ⟨⟩ polling other call compilation installing - entry -
    by_cases same : other = thread
    · rw [same, polling] at installing
      cases installing
    · rw [solo other same] at installing
      cases installing
  entryStore := by
    rintro acting _ f call compilation header ⟨⟩ installing isHeader
    exact stored installing isHeader

theorem System.Solo.run {answers : List Answer} (reachable : System.Reachable sync OsrOrderly s)
    (solo : s.Solo thread) (h : System.soloRun? sync thread s answers = some s') :
    System.Reachable sync OsrOrderly s' := by
  refine (Transition.runLabels_invariant (fun s ↦ System.Reachable sync OsrOrderly s ∧ s.Solo thread)
    ?_ ⟨reachable, solo⟩ h).1
  rintro s answer next ⟨reachable, solo⟩ stored step
  have orderly : OsrOrderly s (.advance thread answer) := by
    apply solo.orderly
    intro f call compilation header installing isHeader
    simp only [installing, isHeader, Option.all_some, beq_iff_eq] at stored
    exact stored.symm
  refine ⟨.next reachable orderly step, fun other different ↦ ?_⟩
  simp only [step?] at step
  obtain ⟨task, -, rfl⟩ := Option.map_eq_some_iff.mp step
  simpa [setTask, different] using solo other different

/-- Steps that are no atomic step of a task are in order. -/
theorem OsrOrderly.of_ne_advance (h : ∀ thread answer, label ≠ .advance thread answer) :
    OsrOrderly s label where
  headerStore isAdvance := absurd isAdvance (h _ _)
  entryLoad isAdvance := absurd isAdvance (h _ _)
  entryStore isAdvance := absurd isAdvance (h _ _)

/-- The state after a number of polls of one function, with the driver's hooks installed. -/
def warm (polls : ℕ) : System where
  shared :=
    { functions := fun f ↦ if f = 0 then { loopHotness := polls } else {}
      hook := true
      activeDriver := true }

/-- A cold poll only counts. -/
theorem warm_poll (sync : Bool) (cold : polls + 1 < tier1LoopThreshold) :
    System.soloRun? sync (.mutator 0)
      ((warm polls).setTask (.mutator 0) (some ⟨0, .osrPoll 1, .pollHotness⟩)) [{}, {}, {}] =
        some (warm (polls + 1)) := by
  have count : saturatingAdd u32Max polls = polls + 1 := by
    simp only [saturatingAdd, u32Max, tier1LoopThreshold] at *
    omega
  have functions (fn : PyFunction) :
      Function.update (fun f ↦ if f = 0 then { loopHotness := polls } else {}) 0 fn =
        fun f : FunctionId ↦ if f = 0 then fn else ({} : PyFunction) := by
    funext f
    by_cases same : f = 0 <;> simp [same]
  have notHot : ¬tier1LoopThreshold ≤ polls + 1 := by omega
  simp [System.soloRun?, Transition.runLabels, System.step?, System.setTask, warm, Task.advance, Task.goto, count, notHot,
    Shared.modify, functions]

theorem warm_reachable (sync : Bool) (cold : polls < tier1LoopThreshold) :
    System.Reachable sync OsrOrderly (warm polls) := by
  induction polls with
  | zero =>
    have hook : System.Step sync {} (.setHook true) { shared := { hook := true } } := rfl
    have driver : System.Step sync { shared := { hook := true } } (.setDriver true)
        { shared := { hook := true, activeDriver := true } } := rfl
    have cold : warm 0 = { shared := { hook := true, activeDriver := true } } := by simp [warm]
    rw [cold]
    exact .next (.next (.start rfl) (.of_ne_advance fun _ _ ↦ Label.noConfusion) hook)
      (.of_ne_advance fun _ _ ↦ Label.noConfusion) driver
  | succ polls ih =>
    have start : System.Step sync (warm polls) (.start 0 0 (.osrPoll 1))
        ((warm polls).setTask (.mutator 0) (some ⟨0, .osrPoll 1, .pollHotness⟩)) := rfl
    have started := Transition.Reachable.next (ih (by omega))
      (.of_ne_advance fun _ _ ↦ Label.noConfusion) start
    refine System.Solo.run started ?_ (warm_poll sync cold)
    intro other different
    simp [System.setTask, warm, different]

/-- The answer of a compilation that also has an entry for on-stack replacement. -/
def compiledWithOsr (id : ℕ) : Answer := { compiled := some ⟨id, some 0⟩ }

/-- The poll that crosses the loop threshold, compiled on its own thread. -/
theorem osrPoll_returns_own_entry_compiled :
    ∃ s : System, s.PollReturns (.mutator 0) 1 ⟨0, 1⟩ ∧ (⟨0, 1⟩ : OsrEntry).header = 1 := by
  let started := (warm 9999).setTask (.mutator 0) (some ⟨0, .osrPoll 1, .pollHotness⟩)
  have start : System.Step true (warm 9999) (.start 0 0 (.osrPoll 1)) started := rfl
  have reachable : System.Reachable true OsrOrderly started :=
    .next (warm_reachable true (by decide)) (.of_ne_advance fun _ _ ↦ Label.noConfusion) start
  have solo : started.Solo (.mutator 0) := by
    intro other different
    simp [started, System.setTask, warm, different]
  have evaluated : (System.soloRun? true (.mutator 0) started (.replicate 23 (compiledWithOsr 0))).any
      (fun s ↦ s.tasks (.mutator 0) = some ⟨0, .osrPoll 1, .pollHeader ⟨0, 1⟩⟩ ∧
        (s.shared.functions 0).osrLoopHeader = 1) = true := by decide
  obtain ⟨s, hrun, polling, published⟩ := exists_of_any evaluated
  have returns : s.PollReturns (.mutator 0) 1 ⟨0, 1⟩ := ⟨0, polling, published⟩
  exact ⟨s, returns, osrPoll_returns_own_entry (System.Solo.run reachable solo hrun) returns⟩

/-- One epoch compiled for loop 1 has thrashed, and the installation for loop 2 has stored its header
but not yet its entry: a poll for loop 2 is handed the entry for loop 1. -/
def crossedEpochs : List Label :=
  .start 0 0 (.osrPoll 1) :: advances (.mutator 0) 11 ++
  .receive :: advances .compiler 12 (compiledWithOsr 0) ++
  (List.replicate 63 [.start 0 0 .deoptNote, .advance (.mutator 0) {}]).flatten ++
  .start 0 0 .deoptNote :: advances (.mutator 0) 3 ++
  .start 1 0 (.osrPoll 2) :: advances (.mutator 1) 16 ++
  .receive :: advances .compiler 9 (compiledWithOsr 1) ++
  .start 1 0 (.osrPoll 2) :: advances (.mutator 1) 4

set_option maxRecDepth 4096 in
theorem osrPoll_returns_other_entry :
    ¬∀ s, System.Reachable false (fun _ _ ↦ True) s → ∀ thread header entry,
      s.PollReturns thread header entry → entry.header = header := by
  intro claim
  have evaluated : ((warm 9999).run? false crossedEpochs).any (fun s ↦
      s.tasks (.mutator 1) = some ⟨0, .osrPoll 2, .pollHeader ⟨0, 1⟩⟩ ∧
      (s.shared.functions 0).osrLoopHeader = 2) = true := by decide
  obtain ⟨s, hrun, polling, published⟩ := exists_of_any evaluated
  have reachable : System.Reachable false (fun _ _ ↦ True) (warm 9999) :=
    (warm_reachable false (by decide)).mono fun _ _ _ ↦ trivial
  have wrong := claim s (reachable.runLabels (fun _ _ _ ↦ trivial) hrun) _ 2 ⟨0, 1⟩ ⟨0, polling, published⟩
  cases wrong

end Pon.Tier
