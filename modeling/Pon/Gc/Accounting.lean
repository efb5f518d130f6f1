import Mathlib.Algebra.Order.BigOperators.Group.List
import Pon.Gc.Extent
import Pon.Gc.Finalization

/-!
# The statistics of the heap

Two counters follow the allocated bytes. An allocation adds to both. A collection reads the allocation
debt when it is entered and takes it off when it ends, together with the bytes that its sweep has
reclaimed. The finalizers in between may allocate and run whole collections, which take off what they
have read themselves, so that a debt can be taken off twice. The counters are exact in the runs in which
no collection is entered with a debt while another is in progress.
-/

namespace Pon.Gc

/-! ## Counters -/

/-- Number of values of a counter. -/
def counterRange : ℕ := 2 ^ 64

def fetchAdd (counter amount : ℕ) : ℕ := (counter + amount) % counterRange

/-- A difference below zero wraps around. -/
def fetchSub (counter amount : ℕ) : ℕ :=
  (counter + (counterRange - amount % counterRange)) % counterRange

variable {counter amount rounds size typeId fresh start : ℕ} {w : World} {m : Machine}
  {a : Accounted}

theorem fetchAdd_eq (room : counter + amount < counterRange) :
    fetchAdd counter amount = counter + amount :=
  Nat.mod_eq_of_lt room

theorem fetchSub_eq (inside : counter < counterRange) (le : amount ≤ counter) :
    fetchSub counter amount = counter - amount := by
  have small : amount % counterRange = amount := Nat.mod_eq_of_lt (le.trans_lt inside)
  have around : counter + (counterRange - amount) = counter - amount + counterRange := by omega
  rw [fetchSub, small, around, Nat.add_mod_right]
  exact Nat.mod_eq_of_lt ((Nat.sub_le _ _).trans_lt inside)

/-- `allocated_size` of `Heap::alloc`: the slot size of the spans of the class, or the size of the large
object. -/
def allocatedSize (size : ℕ) : ℕ :=
  if size ≤ smallObjectMax then classElemSize (sizeClassOf size) else max size 1

/-- What a collection in progress takes off the counters when it ends. The bytes that had been allocated
when it was entered are a ghost. -/
structure Dues where
  debtAtEntry : ℕ
  reclaimed : ℕ
  startedAt : ℕ
deriving DecidableEq, Repr

/-- The counters and the collections in progress, newest first. Two ghosts are the bytes allocated so
far, and how many they were when the collection was entered that has ended last. -/
structure Statistics where
  bytesSinceCollect : ℕ
  liveBytes : ℕ
  dues : List Dues
  allocated : ℕ
  lastStart : ℕ
deriving DecidableEq, Repr

namespace Statistics

def new : Statistics where
  bytesSinceCollect := 0
  liveBytes := 0
  dues := []
  allocated := 0
  lastStart := 0

def alloc (st : Statistics) (amount : ℕ) : Statistics :=
  { st with
    bytesSinceCollect := fetchAdd st.bytesSinceCollect amount
    liveBytes := fetchAdd st.liveBytes amount
    allocated := st.allocated + amount }

/-- A collection is entered and sweeps. -/
def enter (st : Statistics) (reclaimed : ℕ) : Statistics :=
  { st with
    dues := { debtAtEntry := st.bytesSinceCollect, reclaimed, startedAt := st.allocated } :: st.dues }

/-- The collection with the given dues ends. -/
def leave (st : Statistics) (index : ℕ) (due : Dues) : Statistics :=
  { st with
    liveBytes := fetchSub st.liveBytes due.reclaimed
    bytesSinceCollect := fetchSub st.bytesSinceCollect due.debtAtEntry
    dues := st.dues.eraseIdx index
    lastStart := due.startedAt }

/-- The statistics after a step of the heap. -/
def after (st : Statistics) (w : World) : Act → Statistics
  | .alloc size _ _ => st.alloc (allocatedSize size)
  | .collect roots => st.enter (w.heap.collectReclaimed w.mem roots)
  | .finish index =>
    match st.dues[index]? with
    | none => st
    | some due => st.leave index due
  | .register _ _ | .write _ | .callFinalizer _ | .returnFinalizer _ => st

end Statistics

/-- The heap with its statistics. -/
structure Accounted where
  machine : Machine
  statistics : Statistics

/-- The step of the heap with its effect on the statistics. -/
structure Accounted.Step (a : Accounted) (act : Act) (a' : Accounted) : Prop where
  heap : Pon.Gc.Step a.machine act a'.machine
  statistics : a'.statistics = a.statistics.after a.machine.world act

def Accounted.Initial (a : Accounted) : Prop :=
  (∃ mem, a.machine = Machine.init mem) ∧ a.statistics = Statistics.new

/-- The states of all runs. -/
def Accounted.Reached (a : Accounted) : Prop :=
  Transition.Reachable Accounted.Initial (fun _ _ ↦ True) Accounted.Step a

/-- A collection that is entered while another is in progress finds no debt, and `live_bytes` has room
for what is allocated. -/
def Accounted.Settled (a : Accounted) : Act → Prop
  | .alloc size _ _ => a.statistics.liveBytes + allocatedSize size < counterRange
  | .collect _ => a.machine.frames ≠ [] → a.statistics.bytesSinceCollect = 0
  | _ => True

/-- The states of the runs whose steps are all settled. -/
def Accounted.SettledReached (a : Accounted) : Prop :=
  Transition.Reachable Accounted.Initial Accounted.Settled Accounted.Step a

/-- No counter wraps below zero when a collection ends, and between collections `bytes_since_collect` is
what was allocated since the last one that has ended was entered, and `live_bytes` the total size of the
allocated blocks. -/
structure Accounted.Exact (a : Accounted) : Prop where
  aligned : a.statistics.dues.length = a.machine.frames.length
  debt_le : ∀ due ∈ a.statistics.dues, due.debtAtEntry ≤ a.statistics.bytesSinceCollect
  reclaimed_le : ∀ due ∈ a.statistics.dues, due.reclaimed ≤ a.statistics.liveBytes
  debt : a.machine.frames = [] →
    a.statistics.bytesSinceCollect = a.statistics.allocated - a.statistics.lastStart
  live : a.machine.frames = [] → a.statistics.liveBytes = a.machine.world.heap.allocatedBytes

/-! ## Steps of the statistics -/

namespace Statistics

/-- What holds of the statistics of a heap whose blocks have the given total size. -/
structure Inv (st : Statistics) (total : ℕ) : Prop where
  live : st.liveBytes = total + (st.dues.map Dues.reclaimed).sum
  inside : st.liveBytes < counterRange
  started : ∀ due ∈ st.dues, due.startedAt ≤ st.allocated
  read : ∀ due ∈ st.dues, st.bytesSinceCollect + due.startedAt = st.allocated + due.debtAtEntry
  since : ∀ due ∈ st.dues, st.allocated ≤ due.startedAt + total
  covered : ∀ due ∈ st.dues, st.bytesSinceCollect ≤ total + due.reclaimed
  single : 1 < st.dues.length → ∀ due ∈ st.dues, due.debtAtEntry = 0
  idle : st.dues = [] → st.bytesSinceCollect + st.lastStart = st.allocated ∧ st.bytesSinceCollect ≤ total

variable {st : Statistics} {total : ℕ}

variable {due : Dues}

theorem Inv.reclaimed_le (h : st.Inv total) (mem : due ∈ st.dues) :
    total + due.reclaimed ≤ st.liveBytes := by
  rw [h.live]
  exact Nat.add_le_add_left (List.le_sum_of_mem (List.mem_map_of_mem mem)) _

theorem Inv.debt_le (h : st.Inv total) (mem : due ∈ st.dues) :
    due.debtAtEntry ≤ st.bytesSinceCollect := by
  have read := h.read due mem
  have started := h.started due mem
  omega

theorem Inv.bytes_le (h : st.Inv total) : st.bytesSinceCollect ≤ st.liveBytes := by
  cases dues : st.dues with
  | nil =>
    rw [h.live]
    exact (h.idle dues).2.trans (Nat.le_add_right _ _)
  | cons due rest =>
    have mem : due ∈ st.dues := dues ▸ List.mem_cons_self
    exact (h.covered due mem).trans (h.reclaimed_le mem)

theorem inv_new : new.Inv 0 where
  live := rfl
  inside := by decide
  started := nofun
  read := nofun
  since := nofun
  covered := nofun
  single := nofun
  idle _ := ⟨rfl, le_refl _⟩

theorem Inv.alloc (h : st.Inv total) (room : st.liveBytes + amount < counterRange) :
    (st.alloc amount).Inv (total + amount) := by
  have bytes : fetchAdd st.bytesSinceCollect amount = st.bytesSinceCollect + amount :=
    fetchAdd_eq ((Nat.add_le_add_right h.bytes_le _).trans_lt room)
  have live : fetchAdd st.liveBytes amount = st.liveBytes + amount := fetchAdd_eq room
  have old := h.live
  refine ⟨?_, ?_, fun due mem ↦ ?_, fun due mem ↦ ?_, fun due mem ↦ ?_, fun due mem ↦ ?_,
    h.single, fun none ↦ ?_⟩
  all_goals simp only [Statistics.alloc, bytes, live]
  · omega
  · exact room
  · exact (h.started due mem).trans (Nat.le_add_right _ _)
  · have read := h.read due mem
    omega
  · have since := h.since due mem
    omega
  · have covered := h.covered due mem
    omega
  · have idle := h.idle none
    omega

/-- Without a debt, nothing was allocated since the collections in progress were entered. -/
theorem Inv.enter {total' reclaimed : ℕ} (h : st.Inv total) (swept : total' + reclaimed = total)
    (settled : st.dues ≠ [] → st.bytesSinceCollect = 0) : (st.enter reclaimed).Inv total' := by
  have fresh : ∀ due ∈ st.dues, st.bytesSinceCollect = 0 ∧ due.startedAt = st.allocated ∧
      due.debtAtEntry = 0 := by
    intro due mem
    have none := settled (List.ne_nil_of_mem mem)
    have read := h.read due mem
    have started := h.started due mem
    omega
  have enough : st.bytesSinceCollect ≤ total' + reclaimed := by
    cases dues : st.dues with
    | nil => exact swept ▸ (h.idle dues).2
    | cons due rest =>
      rw [(fresh due (dues ▸ List.mem_cons_self)).1]
      exact Nat.zero_le _
  have old := h.live
  refine ⟨?_, h.inside, ?_, ?_, ?_, ?_, ?_, nofun⟩
  · simp only [Statistics.enter, List.map_cons, List.sum_cons]
    omega
  · exact List.forall_mem_cons.mpr ⟨le_refl _, h.started⟩
  · exact List.forall_mem_cons.mpr ⟨Nat.add_comm _ _, h.read⟩
  · refine List.forall_mem_cons.mpr ⟨Nat.le_add_right _ _, fun due mem ↦ ?_⟩
    rw [(fresh due mem).2.1]
    exact Nat.le_add_right _ _
  · refine List.forall_mem_cons.mpr ⟨enough, fun due mem ↦ ?_⟩
    change st.bytesSinceCollect ≤ _
    rw [(fresh due mem).1]
    exact Nat.zero_le _
  · intro several
    have some : st.dues ≠ [] := by
      rintro none
      simp [Statistics.enter, none] at several
    exact List.forall_mem_cons.mpr ⟨settled some, fun due mem ↦ (fresh due mem).2.2⟩

theorem Inv.leave (h : st.Inv total) {index : ℕ} (found : st.dues[index]? = some due) :
    (st.leave index due).Inv total := by
  have mem := List.mem_of_getElem? found
  have inside : st.bytesSinceCollect < counterRange := h.bytes_le.trans_lt h.inside
  have bytes : fetchSub st.bytesSinceCollect due.debtAtEntry =
      st.bytesSinceCollect - due.debtAtEntry := fetchSub_eq inside (h.debt_le mem)
  have live : fetchSub st.liveBytes due.reclaimed = st.liveBytes - due.reclaimed :=
    fetchSub_eq h.inside ((Nat.le_add_left _ _).trans (h.reclaimed_le mem))
  obtain ⟨front, back, split, -, others⟩ := exists_split found
  have rest : ∀ other ∈ front ++ back, other ∈ st.dues := by
    intro other mem'
    rw [← others] at mem'
    exact List.mem_of_mem_eraseIdx mem'
  -- Another collection in progress means that none of them has read a debt.
  have unread : ∀ other ∈ front ++ back, due.debtAtEntry = 0 := by
    intro other mem'
    refine h.single ?_ due mem
    have several := List.length_pos_of_mem mem'
    rw [split]
    simp only [List.length_append, List.length_cons] at several ⊢
    omega
  have left : st.leave index due = { st with
      liveBytes := st.liveBytes - due.reclaimed
      bytesSinceCollect := st.bytesSinceCollect - due.debtAtEntry
      dues := front ++ back
      lastStart := due.startedAt } := by
    rw [Statistics.leave, bytes, live, others]
  rw [left]
  have old := h.live
  refine ⟨?_, (Nat.sub_le _ _).trans_lt h.inside, fun other mem' ↦ h.started other (rest other mem'),
    fun other mem' ↦ ?_, fun other mem' ↦ h.since other (rest other mem'),
    fun other mem' ↦ (Nat.sub_le _ _).trans (h.covered other (rest other mem')),
    fun _ other mem' ↦ ?_, fun _ ↦ ?_⟩
  · rw [split] at old
    simp only [List.map_append, List.map_cons, List.sum_append, List.sum_cons] at old ⊢
    omega
  · change st.bytesSinceCollect - _ + _ = _
    rw [unread other mem', Nat.sub_zero]
    exact h.read other (rest other mem')
  · refine h.single ?_ other (rest other mem')
    have several := List.length_pos_of_mem mem'
    rw [split]
    simp only [List.length_append, List.length_cons] at several ⊢
    omega
  · have read := h.read due mem
    have since := h.since due mem
    have le := h.debt_le mem
    dsimp only
    omega

end Statistics

/-! ## Steps of the heap -/

theorem World.Sound.alloc_size {w' : World} (h : w.Sound) (hfresh : FreshFor w.heap size fresh)
    (halloc : w.alloc rounds size typeId fresh = some (w', start)) (valid : w'.heap.Valid)
    {block : Block} (allocated : w'.heap.Allocated block) (same : block.start = start) :
    block.size = allocatedSize size := by
  have registered : (w.heap.typeInfo typeId).isNone = false := by
    cases info : w.heap.typeInfo typeId with
    | none => simp [World.alloc, info] at halloc
    | some _ => rfl
  rw [World.alloc, registered, if_neg Bool.false_ne_true] at halloc
  unfold allocatedSize
  split at halloc
  · rename_i small
    have hlayout : requestLayout size = (spanBytes, spanBytes) := by simp [requestLayout, small]
    have span : FreshSpan w.heap fresh :=
      ⟨hfresh.pos, by simpa [hlayout] using hfresh.aligned, by simpa [hlayout] using hfresh.disjoint⟩
    obtain ⟨result, ⟨w₁, index, span, slot, opened, found, hclass, free, rfl⟩, -, unique⟩ :=
      h.allocSmall (sizeClassOf_lt small) span typeId
    cases unique rounds _ halloc
    have hspan := opened.sound.valid.spans index span found
    obtain ⟨inside, -, -⟩ := hspan.findFreeSlot_some free
    have handed : (w₁.takeSlot index span slot typeId).1.heap.Allocated
        ((span.allocSlot slot typeId).block slot) := by
      refine ⟨.span index slot, HeapState.blockAt_span_eq_some.mpr
        ⟨span.allocSlot slot typeId, ?_, inside, ?_, rfl⟩⟩
      · rw [World.takeSlot, HeapState.span?_setSpan (HeapState.lt_of_span? found), if_pos rfl]
      · rw [hspan.get_allocSlot inside, decide_eq_true rfl, Bool.true_or]
    rw [valid.allocated_unique allocated handed same, if_pos small, ← hclass]
    exact hspan.elemSize_eq
  · rename_i large
    cases halloc
    have handed : (World.allocLarge size typeId fresh w).1.heap.Allocated
        { start := fresh, size := max size 1, typeId := typeId % 2 ^ 16, young := true,
          finalized := false } :=
      ⟨.large w.heap.large.length, by simp [HeapState.blockAt, World.allocLarge, LargeObject.block]⟩
    rw [valid.allocated_unique allocated handed same, if_neg large]

theorem Machine.Inv.alloc_bytes (h : m.Inv) (hfresh : m.Fresh (requestLayout size) fresh)
    (halloc : m.world.alloc rounds size typeId fresh = some (w, start)) :
    w.heap.allocatedBytes = m.world.heap.allocatedBytes + allocatedSize size := by
  obtain ⟨location, block, same, allocates⟩ := h.sound.alloc_some hfresh.forHeap halloc
  have allocated := (allocates.allocated_iff block).mpr (.inl rfl)
  rw [allocates.allocatedBytes h.sound,
    h.sound.alloc_size hfresh.forHeap halloc allocates.sound.valid allocated same]

theorem Machine.Inv.finish_bytes (h : m.Inv) {index : ℕ} {frame : Frame}
    (hframe : m.frames[index]? = some frame) :
    (m.finish index frame).world.heap.allocatedBytes = m.world.heap.allocatedBytes :=
  h.sound.valid.allocatedBytes_congr (h.finish hframe).sound.valid fun location ↦
    congrArg (Option.map Block.region) (HeapState.blockAt_forgetPending _ _ location)

/-- What holds of the heap and its statistics in settled runs. -/
structure Accounted.Inv (a : Accounted) : Prop where
  machine : a.machine.Inv
  aligned : a.statistics.dues.length = a.machine.frames.length
  statistics : a.statistics.Inv a.machine.world.heap.allocatedBytes

theorem Accounted.Initial.inv (h : a.Initial) : a.Inv := by
  obtain ⟨machine, statistics⟩ := a
  obtain ⟨⟨mem, rfl⟩, rfl⟩ := h
  exact ⟨Machine.inv_init mem, rfl, Statistics.inv_new⟩

theorem Accounted.Inv.step {a' : Accounted} {act : Act} (h : a.Inv) (settled : a.Settled act)
    (step : a.Step act a') : a'.Inv := by
  obtain ⟨machine, statistics⟩ := a
  obtain ⟨machine', statistics'⟩ := a'
  obtain ⟨heap, rfl⟩ := step
  obtain ⟨inv, aligned, stats⟩ := h
  have inv' := heap.inv inv
  dsimp only at heap inv inv' aligned stats
  suffices rest : (statistics.after machine.world act).dues.length = machine'.frames.length ∧
      (statistics.after machine.world act).Inv machine'.world.heap.allocatedBytes from
    ⟨inv', rest.1, rest.2⟩
  cases heap with
  | register registered =>
    obtain ⟨-, blocks, -⟩ := inv.sound.registerType registered
    have same := inv.sound.valid.allocatedBytes_congr inv'.sound.valid fun location ↦
      congrArg (Option.map Block.region) (blocks location)
    refine ⟨aligned, ?_⟩
    dsimp only
    rw [same]
    exact stats
  | alloc hfresh halloc =>
    refine ⟨aligned, ?_⟩
    dsimp only
    rw [inv.alloc_bytes hfresh halloc]
    exact stats.alloc settled
  | write _ => exact ⟨aligned, stats⟩
  | collect =>
    refine ⟨congrArg (· + 1) aligned, ?_⟩
    refine stats.enter (inv.sound.collect_allocatedBytes _) fun some ↦ settled fun none ↦ some ?_
    dsimp only at none
    rw [none, List.length_nil] at aligned
    exact List.length_eq_zero_iff.mp aligned
  | callFinalizer _ _ _ => exact ⟨by rw [List.length_set]; exact aligned, stats⟩
  | returnFinalizer _ _ => exact ⟨by rw [List.length_set]; exact aligned, stats⟩
  | @finish index frame hframe _ _ =>
    obtain ⟨lt, -⟩ := List.getElem?_eq_some_iff.mp hframe
    obtain ⟨due, found⟩ : ∃ due, statistics.dues[index]? = some due :=
      ⟨_, List.getElem?_eq_getElem (aligned.symm ▸ lt)⟩
    have left : statistics.after machine.world (.finish index) = statistics.leave index due := by
      simp only [Statistics.after, found]
    rw [left, inv.finish_bytes hframe]
    refine ⟨?_, stats.leave found⟩
    simp only [Statistics.leave, Machine.finish, List.length_eraseIdx, aligned]

/-- In settled runs the counters are exact. -/
theorem accounting_exact {a : Accounted} (h : a.SettledReached) : a.Exact := by
  have inv : a.Inv := by
    apply Transition.Reachable.invariant Accounted.Inv _ _ h
    · exact fun _ initial ↦ initial.inv
    · exact fun _ _ _ inv settled step ↦ inv.step settled step
  have idle : a.machine.frames = [] → a.statistics.dues = [] := by
    intro none
    have aligned := inv.aligned
    rw [none, List.length_nil] at aligned
    exact List.length_eq_zero_iff.mp aligned
  refine ⟨inv.aligned, fun due mem ↦ inv.statistics.debt_le mem,
    fun due mem ↦ (Nat.le_add_left _ _).trans (inv.statistics.reclaimed_le mem), fun none ↦ ?_,
    fun none ↦ ?_⟩
  · have read := (inv.statistics.idle (idle none)).1
    omega
  · rw [inv.statistics.live, idle none]
    rfl

/-! ## Runs -/

/-- The heap and its statistics after a step that leads to the given machine. -/
def Accounted.next (a : Accounted) (act : Act) (machine : Machine) : Accounted where
  machine
  statistics := a.statistics.after a.machine.world act

/-- A heap with the given types that has allocated nothing. -/
def typedAccounted (types : List GcTypeInfo) : Accounted where
  machine := typedMachine types
  statistics := Statistics.new

def Accounted.addNode (a : Accounted) (typeId start : ℕ) : Accounted :=
  a.next (.alloc 2000 typeId start) (a.machine.addNode typeId start)

def Accounted.collect (a : Accounted) (roots : List ℕ) : Accounted :=
  a.next (.collect roots) (a.machine.collect roots)

/-- The newest collection ends. -/
def Accounted.finish (a : Accounted) : Accounted :=
  match a.machine.frames with
  | [] => a
  | frame :: _ => a.next (.finish 0) (a.machine.finish 0 frame)

/-- The newest collection calls its first finalizer. -/
def Accounted.callFinalizer (a : Accounted) : Accounted :=
  match a.machine.frames with
  | [] => a
  | frame :: rest =>
    match frame.todo with
    | [] => a
    | entry :: todo =>
      a.next (.callFinalizer 0)
        { a.machine with
          frames := { frame with running := some entry, todo } :: rest
          log := .call entry.start :: a.machine.log }

/-- The finalizer that the newest collection has called returns. -/
def Accounted.returnFinalizer (a : Accounted) : Accounted :=
  match a.machine.frames with
  | [] => a
  | frame :: rest =>
    match frame.running with
    | none => a
    | some entry =>
      a.next (.returnFinalizer 0)
        { a.machine with
          frames := { frame with running := none } :: rest
          log := .ret entry.start :: a.machine.log }

/-- A heap with one object, which has survived a collection. -/
def survivedAccounted (info : GcTypeInfo) : Accounted :=
  (((typedAccounted [info]).addNode 0 4096).collect []).finish

theorem settledReached_survivedAccounted (finalize : Option ℕ) :
    Accounted.SettledReached (survivedAccounted (nodeInfo finalize)) := by
  have initial : Accounted.SettledReached ⟨Machine.init fun _ ↦ 0, Statistics.new⟩ :=
    .start ⟨⟨_, rfl⟩, rfl⟩
  have typed : Accounted.SettledReached (typedAccounted [nodeInfo finalize]) :=
    .next (a := Act.register 0 (nodeInfo finalize)) initial trivial ⟨.register rfl, rfl⟩
  have room : 0 + allocatedSize 2000 < counterRange := by decide
  have node : Accounted.SettledReached ((typedAccounted [nodeInfo finalize]).addNode 0 4096) :=
    .next (a := Act.alloc 2000 0 4096) typed room
      ⟨step_addNode (nodeInfo finalize) [] rfl rfl (by norm_num) (by simp), rfl⟩
  have collected : Accounted.SettledReached
      (((typedAccounted [nodeInfo finalize]).addNode 0 4096).collect []) :=
    .next (a := Act.collect []) node (fun some ↦ (some rfl).elim) ⟨.collect, rfl⟩
  exact .next (a := Act.finish 0) collected trivial ⟨.finish rfl rfl rfl, rfl⟩

theorem accounting_exact_survived : (survivedAccounted (nodeInfo none)).Exact ∧
    (survivedAccounted (nodeInfo none)).statistics.liveBytes = 2000 :=
  ⟨accounting_exact (settledReached_survivedAccounted none), by decide⟩

/-- An object with a finalizer has died. A collection that was entered with a debt of 2000 bytes has
called the finalizer. -/
def callingAccounted : Accounted :=
  (((survivedAccounted (nodeInfo (some 1))).addNode 0 8192).collect []).callFinalizer

theorem reached_callingAccounted : Accounted.Reached callingAccounted := by
  have survived : Accounted.Reached (survivedAccounted (nodeInfo (some 1))) :=
    Transition.Reachable.mono (fun _ _ _ ↦ trivial) (settledReached_survivedAccounted (some 1))
  have owed : Accounted.Reached ((survivedAccounted (nodeInfo (some 1))).addNode 0 8192) :=
    .next (a := Act.alloc 2000 0 8192) survived trivial
      ⟨step_addNode (nodeInfo (some 1)) [(4096, 2000)] rfl rfl (by norm_num) (by simp [DisjointRegions]), rfl⟩
  have outer : Accounted.Reached
      (((survivedAccounted (nodeInfo (some 1))).addNode 0 8192).collect []) :=
    .next (a := Act.collect []) owed trivial ⟨.collect, rfl⟩
  exact .next (a := Act.callFinalizer 0) outer trivial ⟨.callFinalizer rfl rfl rfl, rfl⟩

/-- The finalizer runs a collection of its own, and both collections end. -/
def overdrawnAccounted : Accounted :=
  (callingAccounted.collect [8192]).finish.returnFinalizer.finish

theorem reached_overdrawnAccounted : Accounted.Reached overdrawnAccounted := by
  have nested : Accounted.Reached (callingAccounted.collect [8192]) :=
    .next (a := Act.collect [8192]) reached_callingAccounted trivial ⟨.collect, rfl⟩
  have inner : Accounted.Reached (callingAccounted.collect [8192]).finish :=
    .next (a := Act.finish 0) nested trivial ⟨.finish rfl rfl rfl, rfl⟩
  have returned : Accounted.Reached (callingAccounted.collect [8192]).finish.returnFinalizer :=
    .next (a := Act.returnFinalizer 0) inner trivial ⟨.returnFinalizer rfl rfl, rfl⟩
  exact .next (a := Act.finish 0) returned trivial ⟨.finish rfl rfl rfl, rfl⟩

/-- The debt of the outer collection is taken off twice. -/
theorem accounting_overdrawn : ¬ ∀ a, Accounted.Reached a → a.Exact := by
  intro exact
  have debt := (exact overdrawnAccounted reached_overdrawnAccounted).debt rfl
  have wrapped : overdrawnAccounted.statistics.bytesSinceCollect = 2 ^ 64 - 2000 := by decide
  have none : overdrawnAccounted.statistics.allocated = overdrawnAccounted.statistics.lastStart := by
    decide
  rw [wrapped, none, Nat.sub_self] at debt
  norm_num at debt

end Pon.Gc
