import Pon.Gc.Finalization

/-!
# What a finalizer finds below its object

A collection queues the finalizers of all blocks that have died at once and runs them in the order of
the heap tables. Nothing relates that order to the object graph: the finalizer of a block may run
after the finalizer of a block that it points to, and a block that its finalizer brings back can be
left with descendants that have been finalized. The graph is the one that the collection has traced.
-/

namespace Pon.Gc

/-! ## Cycles and their finalizers -/

/-- The first block leads to the second one, which does not lead back. -/
def World.LeadsOneWay (w : World) (block below : Block) : Prop :=
  w.ReachesBlock [block.start] below ∧ ¬ w.ReachesBlock [below.start] block

/-- A block that has died with its finalizer still to be run. -/
structure World.Doomed (w : World) (roots : List ℕ) (block : Block) : Prop where
  allocated : w.heap.Allocated block
  unreached : ¬ w.ReachesBlock (roots ++ w.heap.pendingFinalizerRoots) block
  old : block.young = false
  unfinalized : block.finalized = false
  finalizer : ∃ finalize, w.heap.finalizerOf block.typeId = some finalize

/-- The runs that go on from a state. -/
def Machine.Continues (m : Machine) : Machine → Prop :=
  Transition.Reachable (fun s ↦ s = m) (fun _ _ ↦ True) Step

/-- The frame is that of the collection from `m` with the given roots, however far it has got. -/
def Frame.OfCycle (frame : Frame) (m : Machine) (roots : List ℕ) : Prop :=
  frame.pending = (m.world.heap.collectLocked m.world.mem roots).pending ∧
    frame.before = m.world ∧ frame.roots = roots

/-- At `m'`, the finalizer of the block has run in the collection from `m` or in an earlier one. -/
def Machine.HasRun (m : Machine) (roots : List ℕ) (m' : Machine) (block : Block) : Prop :=
  calls m'.log block.start ≠ 0 ∧ (calls m.log block.start ≠ 0 ∨ (m.collect roots).Queued block.start)

/-- Finalizers of the collection see descendants whose finalizers have not run, and so does everything
that they make reachable again. -/
structure Machine.DescendantsIntact (m : Machine) (roots : List ℕ) : Prop where
  at_call : ∀ m' m'' index frame entry rest, (m.collect roots).Continues m' →
    Step m' (.callFinalizer index) m'' → m'.frames[index]? = some frame →
    frame.OfCycle m roots → frame.todo = entry :: rest →
    ∀ block, m.world.heap.Allocated block → block.start = entry.start →
      ∀ below, m.world.LeadsOneWay block below → ¬ m.HasRun roots m' below
  revived : ∀ m' block, (m.collect roots).Continues m' → m.world.Doomed roots block →
    calls m'.log block.start ≠ 0 →
    ∀ found, m.world.ReachesBlock [block.start] found →
      ¬ m.world.ReachesBlock (roots ++ m.world.heap.pendingFinalizerRoots) found →
      (∃ roots' found', m'.world.ReachesBlock roots' found' ∧ found.SameObject found') →
      ∀ below, m.world.LeadsOneWay found below → ¬ m.HasRun roots m' below

/-- No block that the collection finalizes leads one way to a block that it finalizes too, or that has
been finalized or queued before. -/
def Machine.FinalizesApart (m : Machine) (roots : List ℕ) : Prop :=
  ∀ block, m.world.Doomed roots block → ∀ below, m.world.LeadsOneWay block below →
    below.finalized = false ∧ ¬ m.world.Doomed roots below

/-! ## Finalized blocks -/

/-- The finalized flag of a block is set when its finalizer is queued. -/
def Machine.FinalizedQueued (m : Machine) : Prop :=
  ∀ block, m.world.heap.Allocated block → block.finalized = true →
    calls m.log block.start ≠ 0 ∨
      ∃ frame ∈ m.frames, block.start ∈ frame.todo.map PendingFinalizer.start

theorem Machine.collect_frames (m : Machine) (roots : List ℕ) :
    ∃ frame : Frame, (m.collect roots).frames = frame :: m.frames ∧ frame.OfCycle m roots ∧
      frame.running = none ∧ frame.todo = frame.pending :=
  ⟨_, rfl, ⟨rfl, rfl, rfl⟩, rfl, rfl⟩

theorem Machine.collect_log (m : Machine) (roots : List ℕ) : (m.collect roots).log = m.log := by
  cases m
  rfl

variable {m m' : Machine} {index : ℕ} {frame : Frame} {w : World} {roots : List ℕ}
  {block below : Block}

theorem Machine.FinalizedQueued.collect (h : m.FinalizedQueued) (hinv : m.Inv) (roots : List ℕ) :
    (m.collect roots).FinalizedQueued := by
  intro block' hblock' hfinalized
  have hcollected := hinv.sound.collectLocked roots
  obtain ⟨frame, hframes, hcycle, _, htodo⟩ := m.collect_frames roots
  rw [Machine.collect_world] at hblock'
  dsimp only at hblock'
  rw [Machine.collect_log, hframes]
  obtain ⟨location, block, hblock, _, rfl⟩ := (hcollected.allocated block').mp hblock'
  simp only [Block.finalizeIf, Bool.or_eq_true, decide_eq_true_eq] at hfinalized ⊢
  rcases hfinalized with hold | hnew
  · rcases h block ⟨location, hblock⟩ hold with hcalled | ⟨older, holder, hqueued⟩
    · exact Or.inl hcalled
    · exact Or.inr ⟨older, List.mem_cons_of_mem _ holder, hqueued⟩
  · refine Or.inr ⟨frame, List.mem_cons_self, ?_⟩
    rw [htodo, hcycle.1]
    exact hnew

/-- Replacing a frame loses no entry that is still to be called, except for those that have been. -/
theorem Machine.FinalizedQueued.updateFrame (h : m.FinalizedQueued) {frame' : Frame}
    {log : List Event} (hframe : m.frames[index]? = some frame)
    (hcalls : ∀ start, calls m.log start ≠ 0 → calls log start ≠ 0)
    (htodo : ∀ entry ∈ frame.todo, calls log entry.start ≠ 0 ∨ entry ∈ frame'.todo) :
    ({ m with frames := m.frames.set index frame', log } : Machine).FinalizedQueued := by
  obtain ⟨front, back, hsplit, hset, _⟩ := exists_split hframe
  intro block hblock hfinalized
  rcases h block hblock hfinalized with hcalled | ⟨other, hother, hmem⟩
  · exact Or.inl (hcalls _ hcalled)
  · obtain ⟨entry, hentry, hstart⟩ := List.mem_map.mp hmem
    simp only [hset]
    rw [hsplit] at hother
    rcases List.mem_append.mp hother with hfront | hrest
    · exact Or.inr ⟨other, List.mem_append_left _ hfront, hmem⟩
    · rcases List.mem_cons.mp hrest with rfl | hback
      · rcases htodo entry hentry with hcalled | hkept
        · exact Or.inl (hstart ▸ hcalled)
        · exact Or.inr ⟨frame', by simp, List.mem_map.mpr ⟨entry, hkept, hstart⟩⟩
      · exact Or.inr ⟨other, by simp [hback], hmem⟩

variable {act : Act} {m'' : Machine} {entry : PendingFinalizer}

theorem Step.finalizedQueued (hstep : Step m act m') (hinv : m.Inv) (h : m.FinalizedQueued) :
    m'.FinalizedQueued := by
  cases hstep with
  | register hregister =>
    obtain ⟨_, hblocks, _⟩ := hinv.sound.registerType hregister
    rintro block ⟨location, hlocation⟩ hfinalized
    exact h block ⟨location, (hblocks location).symm.trans hlocation⟩ hfinalized
  | alloc hfresh halloc =>
    obtain ⟨_, block, rfl, hallocates⟩ := hinv.sound.alloc_some hfresh.forHeap halloc
    intro other hother hfinalized
    rcases (hallocates.allocated_iff other).mp hother with rfl | hold
    · rw [hallocates.not_finalized] at hfinalized
      cases hfinalized
    · simp only [calls, if_neg (hallocates.start_ne hold)]
      exact h other hold hfinalized
  | write _ => exact h
  | collect => exact h.collect hinv _
  | @callFinalizer _ frame entry rest hframe _ htodo =>
    apply h.updateFrame hframe
    · intro start hcalled
      simp only [calls]
      omega
    · intro other hother
      rw [htodo] at hother
      rcases List.mem_cons.mp hother with rfl | hrest
      · exact Or.inl (by simp [calls])
      · exact Or.inr hrest
  | returnFinalizer hframe _ =>
    exact h.updateFrame hframe (fun _ hcalled ↦ hcalled) fun _ hentry ↦ Or.inr hentry
  | @finish index frame hframe _ htodo =>
    obtain ⟨front, back, hsplit, _, herase⟩ := exists_split hframe
    rintro block ⟨location, hlocation⟩ hfinalized
    rw [Machine.finish, HeapState.blockAt_forgetPending] at hlocation
    simp only [Machine.finish, calls_release]
    rcases h block ⟨location, hlocation⟩ hfinalized with hcalled | ⟨other, hother, hmem⟩
    · exact Or.inl hcalled
    · refine Or.inr ⟨other, ?_, hmem⟩
      have hne : other ≠ frame := by
        rintro rfl
        simp [htodo] at hmem
      rw [hsplit] at hother
      rw [herase]
      simpa [hne] using hother

theorem Reached.finalizedQueued (h : Reached m) : m.FinalizedQueued := by
  induction h with
  | start hinit =>
    obtain ⟨mem, rfl⟩ := hinit
    rintro block ⟨location, hlocation⟩
    cases location <;>
      simp [Machine.init, HeapState.new, HeapState.blockAt, HeapState.span?] at hlocation
  | next hprev _ hstep ih => exact hstep.finalizedQueued (Reached.inv hprev) ih

/-! ## Running the finalizers of a frame -/

theorem Machine.Continues.step (h : m.Continues m') (hstep : Step m' act m'') : m.Continues m'' :=
  .next h trivial hstep

theorem Machine.Continues.trans (h : m.Continues m') (h' : m'.Continues m'') : m.Continues m'' := by
  induction h' with
  | start heq => exact heq ▸ h
  | next _ _ hstep ih => exact ih.step hstep

theorem set_self {α : Type*} {l : List α} {a : α} (h : l[index]? = some a) : l.set index a = l := by
  obtain ⟨front, back, hsplit, hset, _⟩ := exists_split h
  exact (hset a).trans hsplit.symm

/-- The first finalizers of an idle frame can run at once. -/
theorem Machine.runs_front (index : ℕ) (front rest : List PendingFinalizer)
    (hframe : m.frames[index]? = some frame) (hrunning : frame.running = none)
    (htodo : frame.todo = front ++ rest) :
    ∃ log, m.Continues { m with frames := m.frames.set index { frame with todo := rest }, log } ∧
      (∀ start, calls m.log start ≤ calls log start) ∧
      ∀ entry ∈ front, calls log entry.start ≠ 0 := by
  induction front generalizing m frame with
  | nil =>
    have hsame : ({ frame with todo := rest } : Frame) = frame := by
      rw [← List.nil_append rest, ← htodo]
    refine ⟨m.log, ?_, fun _ ↦ le_rfl, fun _ hmem ↦ by cases hmem⟩
    rw [hsame, set_self hframe]
    exact .start rfl
  | cons entry front ih =>
    obtain ⟨hlt, _⟩ := List.getElem?_eq_some_iff.mp hframe
    have hcall := Step.callFinalizer hframe hrunning htodo
    have hreturn := Step.returnFinalizer
      (m := { m with
        frames := m.frames.set index { frame with running := some entry, todo := front ++ rest }
        log := .call entry.start :: m.log })
      (List.getElem?_set_self hlt) rfl
    obtain ⟨log, hruns, hle, hcalled⟩ := ih
      (m := { m with
        frames := m.frames.set index { frame with running := none, todo := front ++ rest }
        log := .ret entry.start :: .call entry.start :: m.log })
      (List.getElem?_set_self hlt) rfl rfl
    have hfirst : m.Continues { m with
        frames := m.frames.set index { frame with running := none, todo := front ++ rest }
        log := .ret entry.start :: .call entry.start :: m.log } := by
      have hsteps := (Machine.Continues.step (.start rfl) hcall).step hreturn
      simpa only [List.set_set] using hsteps
    have hmono : ∀ start, calls m.log start ≤ calls log start := by
      intro start
      refine le_trans ?_ (hle start)
      simp only [calls]
      omega
    refine ⟨log, ?_, hmono, fun other hother ↦ ?_⟩
    · have hall := hfirst.trans hruns
      simpa only [List.set_set, hrunning] using hall
    · rcases List.mem_cons.mp hother with rfl | hmem
      · have hone : 1 ≤ calls log other.start := by
          refine le_trans ?_ (hle other.start)
          simp [calls]
        omega
      · exact hcalled other hmem

/-- A running finalizer can return at once. -/
theorem Machine.runs_idle (hframe : m.frames[index]? = some frame) :
    ∃ log, m.Continues { m with frames := m.frames.set index { frame with running := none }, log } ∧
      ∀ start, calls log start = calls m.log start := by
  cases hrunning : frame.running with
  | none =>
    have hsame : ({ frame with running := none } : Frame) = frame := by
      rw [← hrunning]
    refine ⟨m.log, ?_, fun _ ↦ rfl⟩
    rw [hsame, set_self hframe]
    exact .start rfl
  | some entry =>
    have hstep := Step.returnFinalizer hframe hrunning
    exact ⟨_, Machine.Continues.step (.start rfl) hstep, fun _ ↦ rfl⟩

/-- The finalizer of an entry in the queue of a frame can run without a change to the other frames. -/
theorem Machine.runs_queued (hframe : m.frames[index]? = some frame) (hentry : entry ∈ frame.todo) :
    ∃ m', m.Continues m' ∧ calls m'.log entry.start ≠ 0 ∧
      ∀ other, other ≠ index → m'.frames[other]? = m.frames[other]? := by
  obtain ⟨first, last, hsplit⟩ := List.append_of_mem hentry
  obtain ⟨log, hidle, _⟩ := Machine.runs_idle hframe
  obtain ⟨hlt, _⟩ := List.getElem?_eq_some_iff.mp hframe
  obtain ⟨log', hruns, _, hcalled⟩ := Machine.runs_front
    (m := { m with frames := m.frames.set index { frame with running := none }, log })
    index (first ++ [entry]) last (List.getElem?_set_self hlt) rfl (by simp [hsplit])
  refine ⟨_, hidle.trans hruns, hcalled entry (by simp), fun other hother ↦ ?_⟩
  dsimp only
  rw [List.getElem?_set_ne hother.symm, List.getElem?_set_ne hother.symm]

/-! ## Which descendants are intact -/

theorem World.ReachesBlock.allocated (h : w.ReachesBlock roots block) : w.heap.Allocated block := by
  obtain ⟨location, hblock, _⟩ := h
  exact ⟨location, hblock⟩

/-- What a block leads to leads on. -/
theorem World.Sound.reachesBlock_trans (h : w.Sound) (hblock : w.ReachesBlock roots block)
    (hbelow : w.ReachesBlock [block.start] below) :
    w.ReachesBlock roots below := by
  obtain ⟨location, hlocation, hreach⟩ := hblock
  obtain ⟨location', hlocation', hreach'⟩ := hbelow
  refine ⟨location', hlocation', hreach'.subset_closed (w.Reaches roots) ?_ ?_⟩
  · intro p hp target htarget
    rw [List.mem_singleton.mp hp] at htarget
    obtain ⟨other, hother, hcontains⟩ := h.valid.classifyPointer_eq_some.mp htarget
    have hsame := h.valid.location_unique hother hlocation hcontains
      (h.valid.block_contains_start hlocation)
    exact hsame ▸ hreach
  · exact fun a ha p hp target htarget ↦ .step ha hp htarget

/-- The queue of a cycle holds the doomed blocks. -/
theorem World.Sound.pending_of_doomed (h : w.Sound) (hdoomed : w.Doomed roots block) :
    ∃ entry ∈ (w.heap.collectLocked w.mem roots).pending, entry.start = block.start := by
  obtain ⟨location, hblock⟩ := hdoomed.allocated
  obtain ⟨finalize, hfinalize⟩ := hdoomed.finalizer
  refine ⟨{ start := block.start, finalize, location }, ?_, rfl⟩
  apply ((h.collectLocked roots).pending_iff _).mpr
  refine ⟨block, hblock, rfl, ?_, hdoomed.old, hdoomed.unfinalized, hfinalize⟩
  exact fun hreach ↦ hdoomed.unreached ⟨location, hblock, hreach⟩

theorem World.Sound.doomed_of_pending (h : w.Sound) (hblock : w.heap.Allocated block)
    (hentry : entry ∈ (w.heap.collectLocked w.mem roots).pending)
    (hstart : block.start = entry.start) :
    w.Doomed roots block := by
  obtain ⟨other, hother, hstart', hreach, hold, hunfinalized, hfinalizer⟩ :=
    ((h.collectLocked roots).pending_iff entry).mp hentry
  obtain rfl : block = other := h.valid.allocated_unique hblock ⟨_, hother⟩ (hstart.trans hstart')
  refine ⟨hblock, ?_, hold, hunfinalized, entry.finalize, hfinalizer⟩
  exact fun hreached ↦ hreach ((h.reachesBlock_iff hother).mp hreached)

/-- Below a doomed block nothing is finalized by this collection or an earlier one. -/
theorem Machine.FinalizesApart.not_hasRun (h : m.FinalizesApart roots) (hinv : m.Inv)
    (hdoomed : m.world.Doomed roots block) (hbelow : m.world.LeadsOneWay block below) :
    ¬ m.HasRun roots m' below := by
  obtain ⟨hunfinalized, hspared⟩ := h block hdoomed below hbelow
  have hallocated := hbelow.1.allocated
  rintro ⟨_, hcalled | ⟨frame, hframe, entry, hentry, hstart⟩⟩
  · exact hcalled (hinv.calls_unfinalized below hallocated hunfinalized)
  · rcases List.mem_cons.mp hframe with rfl | hold
    · exact hspared (hinv.sound.doomed_of_pending hallocated hentry hstart.symm)
    · have hrooted := hinv.mem_rooted hold ((hinv.unfinished_pending frame hold).subset hentry)
      obtain ⟨other, hother, hstart', hfinalized⟩ := hinv.rooted_block _ hrooted
      have hsame := hinv.sound.valid.allocated_unique hallocated hother (hstart.symm.trans hstart'.symm)
      rw [← hsame, hunfinalized] at hfinalized
      cases hfinalized

theorem Machine.FinalizesApart.intact (h : m.FinalizesApart roots) (hinv : m.Inv) :
    m.DescendantsIntact roots where
  at_call m' m'' index frame entry rest hruns _ hframe hcycle htodo block hblock hstart below hbelow := by
    apply h.not_hasRun hinv _ hbelow
    have hinv' : m'.Inv := by
      apply Transition.Reachable.invariant Machine.Inv _ _ hruns
      · rintro _ rfl
        exact hinv.collect roots
      · exact fun s act s' hs _ hstep ↦ hstep.inv hs
    have hmem : entry ∈ frame.pending := by
      apply (hinv'.unfinished_pending frame (List.mem_of_getElem? hframe)).subset
      simp [Frame.unfinished, htodo]
    rw [hcycle.1] at hmem
    exact hinv.sound.doomed_of_pending hblock hmem hstart
  revived m' block hruns hdoomed _ found hfound hunreached _ below hbelow := by
    have hchain := hinv.sound.reachesBlock_trans hfound hbelow.1
    -- A descendant that led back to the block would lead back to what was found below it.
    apply h.not_hasRun hinv hdoomed ⟨hchain, fun hback ↦ hbelow.2 ?_⟩
    exact hinv.sound.reachesBlock_trans hback hfound

theorem Collected.reaches_survivor {cycle : CycleResult} (h : Collected w roots cycle)
    {location : ObjectLocation} (hblock : cycle.heap.blockAt location = some block) :
    ({ w with heap := cycle.heap } : World).ReachesBlock [block.start] block :=
  ⟨location, hblock, h.sound.reaches_start hblock (List.mem_singleton.mpr rfl)⟩

/-- Once the finalizers of the queue have run, a doomed block whose finalizer brings it back has
descendants that have been finalized. -/
theorem Machine.Inv.revives_doomed (h : m.Inv) (hdoomed : m.world.Doomed roots block)
    (hbelow : m.world.LeadsOneWay block below) (hdoomed' : m.world.Doomed roots below) :
    ¬ m.DescendantsIntact roots := by
  intro hintact
  have hcollected := h.sound.collectLocked roots
  obtain ⟨entry, hentry, hstart⟩ := h.sound.pending_of_doomed hdoomed
  obtain ⟨entry', hentry', hstart'⟩ := h.sound.pending_of_doomed hdoomed'
  obtain ⟨frame, hframes, hcycle, hrunning, htodo⟩ := m.collect_frames roots
  have hfirst : (m.collect roots).frames[0]? = some frame := by rw [hframes]; rfl
  obtain ⟨log, hruns, _, hcalled⟩ := (m.collect roots).runs_front 0
    (m.world.heap.collectLocked m.world.mem roots).pending [] hfirst hrunning
    (by rw [htodo, hcycle.1, List.append_nil])
  obtain ⟨location, hblock⟩ := hdoomed.allocated
  have hself : m.world.ReachesBlock [block.start] block :=
    ⟨location, hblock, h.sound.reaches_start hblock (by simp)⟩
  have hroot : m.world.Reaches (roots ++ m.world.heap.pendingFinalizerRoots ++
      (m.world.heap.collectLocked m.world.mem roots).pending.map PendingFinalizer.start) location := by
    apply h.sound.reaches_start hblock
    exact List.mem_append_right _ (List.mem_map.mpr ⟨entry, hentry, hstart⟩)
  obtain ⟨location', hsurvives⟩ := hcollected.survives hblock hroot
  have hreached : ∃ revived, (m.collect roots).world.ReachesBlock [block.start] revived ∧
      block.SameObject revived := by
    rw [Machine.collect_world]
    have hreached := hcollected.reaches_survivor hsurvives
    exact ⟨_, hreached, rfl, rfl, rfl⟩
  obtain ⟨revived, hreached, hsame⟩ := hreached
  refine hintact.revived _ block hruns hdoomed (hstart ▸ hcalled entry hentry) block hself
    hdoomed.unreached ⟨[block.start], revived, hreached, hsame⟩ below hbelow ?_
  · refine ⟨hstart' ▸ hcalled entry' hentry', Or.inr ⟨_, List.mem_cons_self, entry', ?_, hstart'⟩⟩
    exact List.mem_append_right _ hentry'

/-- After the start of a collection, a finalizer that has been called or queued before can have been
called while the frame of the collection has not moved. -/
theorem Machine.runs_finalized {begun : Machine} {start : ℕ}
    (hframes : begun.frames = frame :: m.frames) (hlog : begun.log = m.log)
    (h : calls m.log start ≠ 0 ∨ ∃ older ∈ m.frames, start ∈ older.todo.map PendingFinalizer.start) :
    ∃ m', begun.Continues m' ∧ calls m'.log start ≠ 0 ∧ m'.frames[0]? = some frame ∧
      (calls m.log start ≠ 0 ∨ begun.Queued start) := by
  have hfirst : begun.frames[0]? = some frame := by rw [hframes]; rfl
  rcases h with hcalled | ⟨older, holder, htodo⟩
  · exact ⟨begun, .start rfl, hlog ▸ hcalled, hfirst, Or.inl hcalled⟩
  · obtain ⟨old, hold, rfl⟩ := List.mem_map.mp htodo
    obtain ⟨index, hindex⟩ := List.mem_iff_getElem?.mp holder
    have hget : begun.frames[index + 1]? = some older := by
      rw [hframes, List.getElem?_cons_succ, hindex]
    obtain ⟨m', hruns, hcalled, hothers⟩ := Machine.runs_queued hget hold
    refine ⟨m', hruns, hcalled, (hothers 0 (Nat.succ_ne_zero index).symm).trans hfirst, Or.inr ?_⟩
    refine ⟨older, hframes ▸ List.mem_cons_of_mem _ holder, old, ?_, rfl⟩
    exact List.mem_append_right _ hold

/-- The finalizer of a doomed block that leads to a finalized block can run when the finalizer of the
latter has. -/
theorem Machine.Inv.calls_above_finalized (h : m.Inv) (hqueued : m.FinalizedQueued)
    (hdoomed : m.world.Doomed roots block) (hbelow : m.world.LeadsOneWay block below)
    (hfinalized : below.finalized = true) :
    ¬ m.DescendantsIntact roots := by
  intro hintact
  obtain ⟨entry, hentry, hstart⟩ := h.sound.pending_of_doomed hdoomed
  obtain ⟨frame, hframes, hcycle, hrunning, htodo⟩ := m.collect_frames roots
  rw [← hcycle.1, ← htodo] at hentry
  obtain ⟨front, rest, hpending⟩ := List.append_of_mem hentry
  -- First the finalizer of the block below runs, if it has not yet.
  obtain ⟨m', hruns, hcalled, hframe, horigin⟩ := Machine.runs_finalized hframes (m.collect_log roots)
    (hqueued below hbelow.1.allocated hfinalized)
  obtain ⟨log, hfront, hmono, _⟩ := m'.runs_front 0 front (entry :: rest) hframe hrunning hpending
  obtain ⟨hlt, _⟩ := List.getElem?_eq_some_iff.mp hframe
  have hnext := List.getElem?_set_self (a := { frame with todo := entry :: rest }) hlt
  have hcalls : calls log below.start ≠ 0 := by
    have hle := hmono below.start
    omega
  refine hintact.at_call _ _ 0 _ entry rest (hruns.trans hfront)
    (.callFinalizer hnext hrunning rfl) hnext hcycle rfl block hdoomed.allocated hstart.symm below
    hbelow ⟨?_, horigin⟩
  exact hcalls

/-- In every state of every run, the finalizers of a collection see descendants whose finalizers have
not run, and so does all that they bring back, if and only if no block that the collection finalizes
leads one way to a block that it finalizes too or that has been finalized before. -/
theorem descendants_intact_iff {m : Machine} (h : Reached m) (roots : List ℕ) :
    m.DescendantsIntact roots ↔ m.FinalizesApart roots := by
  constructor
  · intro hintact block hdoomed below hbelow
    constructor
    · by_contra hfinalized
      exact h.inv.calls_above_finalized h.finalizedQueued hdoomed hbelow (by simpa using hfinalized)
        hintact
    · exact fun hdoomed' ↦ h.inv.revives_doomed hdoomed hbelow hdoomed' hintact
  · exact fun hapart ↦ hapart.intact h.inv

/-- A finalized object above an object without a finalizer. -/
theorem descendants_intact_iff_touched : touchedMachine.DescendantsIntact [] := by
  apply (descendants_intact_iff reached_touchedMachine []).mpr
  intro block hdoomed below hbelow
  have hlarge : touchedMachine.world.heap.large.map LargeObject.block =
      [oldNode 4096 0, oldNode 8192 1] := rfl
  have hmem := HeapState.mem_large_of_allocated rfl hdoomed.allocated
  have hmem' := HeapState.mem_large_of_allocated rfl hbelow.1.allocated
  rw [hlarge, List.mem_pair] at hmem hmem'
  have hblock : block = oldNode 4096 0 := by
    apply hmem.resolve_right
    rintro rfl
    obtain ⟨finalize, hfinalize⟩ := hdoomed.finalizer
    cases hfinalize
  have hnode : below = oldNode 8192 1 := by
    apply hmem'.resolve_left
    rintro rfl
    exact hbelow.2 (hblock ▸ hbelow.1)
  subst hnode
  refine ⟨rfl, fun hdoomed' ↦ ?_⟩
  obtain ⟨finalize, hfinalize⟩ := hdoomed'.finalizer
  cases hfinalize

/-- Two old objects with finalizers; the one at 8192 points to the one at 4096. -/
def stackedMachine : Machine :=
  ((((typedMachine [nodeInfo (some 1)]).addNode 0 4096).addNode 0 8192).setNext 8192 4096).fullCollect []

theorem reached_stackedMachine : Reached stackedMachine := by
  have htyped : Reached (typedMachine [nodeInfo (some 1)]) :=
    .next (a := Act.register 0 (nodeInfo (some 1))) (.start ⟨fun _ ↦ 0, rfl⟩) trivial (.register rfl)
  have hnode := Transition.Reachable.next (a := Act.alloc 2000 0 4096) htyped trivial
    (step_addNode (nodeInfo (some 1)) [] rfl rfl (by norm_num) (by simp))
  have hnodes := Transition.Reachable.next (a := Act.alloc 2000 0 8192) hnode trivial
    (step_addNode (nodeInfo (some 1)) [(4096, 2000)] rfl rfl (by norm_num) (by simp [DisjointRegions]))
  have hsecondNode : (((typedMachine [nodeInfo (some 1)]).addNode 0 4096).addNode 0
      8192).world.heap.Allocated { oldNode 8192 0 with young := true } := ⟨.large 1, rfl⟩
  have hwritten := Transition.Reachable.next hnodes trivial (step_setNext 4096 hsecondNode)
  have hcollected := Transition.Reachable.next (a := Act.collect []) hwritten trivial .collect
  exact .next (a := Act.finish 0) hcollected trivial (.finish rfl rfl rfl)

/-- The object below is finalized first: its finalizer has run when that of the object above it is
called. -/
theorem finalizes_below_first :
    ¬ ∀ (m : Machine) (roots : List ℕ), Reached m → m.DescendantsIntact roots := by
  intro hall
  have hintact := hall stackedMachine [] reached_stackedMachine
  obtain ⟨log, hruns, _, hcalled⟩ := (stackedMachine.collect []).runs_front 0
    [{ start := 4096, finalize := 1, location := .large 0 }]
    [{ start := 8192, finalize := 1, location := .large 1 }] rfl rfl (by decide)
  have hnext : ((stackedMachine.collect []).frames.set 0
      { (stackedMachine.collect []).frames.head (List.cons_ne_nil _ _) with
        todo := [{ start := 8192, finalize := 1, location := .large 1 }] })[0]? = some _ := rfl
  have habove : stackedMachine.world.heap.Allocated (oldNode 8192 0) := ⟨.large 1, rfl⟩
  have hbelow : stackedMachine.world.LeadsOneWay (oldNode 8192 0) (oldNode 4096 0) := by
    have hroot : stackedMachine.world.heap.classifyPointer 8192 = some (.large 1) := rfl
    have hchild : 4096 ∈ stackedMachine.world.heap.children stackedMachine.world.mem (.large 1) := by
      decide
    have hresolve : stackedMachine.world.heap.classifyPointer 4096 = some (.large 0) := rfl
    refine ⟨⟨.large 0, rfl, .step (.root (by simp [oldNode]) hroot) hchild hresolve⟩, ?_⟩
    -- The object at 4096 holds no pointer.
    rintro ⟨location, hlocation, hreach⟩
    have honly : location = .large 0 := by
      apply hreach.subset_closed (· = .large 0)
      · intro p hp target htarget
        obtain rfl := List.mem_singleton.mp hp
        exact (Option.some.inj (hresolve.symm.trans htarget)).symm
      · rintro _ rfl p hp
        have hleaf : stackedMachine.world.heap.children stackedMachine.world.mem (.large 0) = [] := by
          decide
        rw [hleaf] at hp
        cases hp
    rw [honly] at hlocation
    cases hlocation
  refine hintact.at_call _ _ 0 _ _ [] hruns (.callFinalizer hnext rfl rfl) hnext ⟨rfl, rfl, rfl⟩ rfl
    (oldNode 8192 0) habove rfl (oldNode 4096 0) hbelow ⟨hcalled _ List.mem_cons_self, Or.inr ?_⟩
  exact ⟨_, List.mem_cons_self, { start := 4096, finalize := 1, location := .large 0 }, by decide, rfl⟩

end Pon.Gc
