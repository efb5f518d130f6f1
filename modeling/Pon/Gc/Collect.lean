import Pon.Gc.Heap

/-!
# The collector

Pointer classification, span-granular marking, the gathering of finalizers and the sweep. A cycle
holds the heap lock up to and including the sweep; `collectLocked` is that part. Running the
finalizers and releasing the detached blocks happens without the lock, and is a matter of
`Pon.Gc.Machine`.

The base index is sorted by distinct bases, so a binary search for a base finds its entry if there is
one; the large index is sorted by start, so a partition point splits it into a front part and the
rest. Root diagnostics are left out.
-/

namespace Pon.Gc

/-- The order in which `(start, index)` pairs are sorted. -/
def EntryLe (a b : ℕ × ℕ) : Prop :=
  a.1 < b.1 ∨ a.1 = b.1 ∧ a.2 ≤ b.2

instance : DecidableRel EntryLe := fun a b ↦
  inferInstanceAs (Decidable (a.1 < b.1 ∨ a.1 = b.1 ∧ a.2 ≤ b.2))

instance : Std.Total EntryLe :=
  ⟨fun a b ↦ by unfold EntryLe; omega⟩

instance : IsTrans (ℕ × ℕ) EntryLe :=
  ⟨fun a b c hab hbc ↦ by unfold EntryLe at *; omega⟩

/-- Start addresses of the large objects with their indices. -/
def largeEntries (large : List LargeObject) : List (ℕ × ℕ) :=
  large.zipIdx.map fun (object, index) ↦ (object.start, index)

variable (s : HeapState)

def HeapState.prepareLargeIndex : HeapState :=
  if s.largeIndexDirty then
    { s with largeIndex := (largeEntries s.large).insertionSort EntryLe, largeIndexDirty := false }
  else
    s

/-- Start of the span-sized region that contains `address`. -/
def spanBaseOf (address : ℕ) : ℕ :=
  address - address % spanBytes

/-- Binary search for a span base. -/
def HeapState.findBase (base : ℕ) : Option ℕ :=
  (s.spanBaseIndex.find? fun entry ↦ entry.1 == base).map Prod.snd

/-- The last entry of the large index that starts at or before `address`. -/
def HeapState.findLarge (address : ℕ) : Option (ℕ × ℕ) :=
  (s.largeIndex.takeWhile fun entry ↦ entry.1 ≤ address).getLast?

/-- Where an object lives. -/
inductive ObjectLocation
  | span (index slot : ℕ)
  | large (index : ℕ)
deriving DecidableEq, Repr

/-- Mark a slot as seen and queue its span. -/
def HeapState.markSlot (index : ℕ) (span : Span) (slot : ℕ) : HeapState :=
  { s.setSpan index { span with markBits := span.markBits.set slot, onQueue := true } with
    spanQueue := if span.onQueue then s.spanQueue else s.spanQueue ++ [index] }

def HeapState.markLarge (index : ℕ) (object : LargeObject) : HeapState :=
  { s with
    large := s.large.set index { object with color := .gray }
    largeQueue := s.largeQueue ++ [index] }

/-- Resolve a pointer to the object that contains it and mark the object as seen. -/
def HeapState.markPointer (address : ℕ) : HeapState :=
  if address = 0 then
    s
  else
    let base := spanBaseOf address
    match s.findBase base with
    | some spanIndex =>
      match s.span? spanIndex with
      | none => s
      | some span =>
        let slot := (address - base) / span.elemSize
        if span.nelems ≤ slot || !span.allocBits.get slot then
          s
        else if span.markBits.get slot then
          s
        else
          s.markSlot spanIndex span slot
    | none =>
      let s := s.prepareLargeIndex
      match s.findLarge address with
      | none => s
      | some (start, largeIndex) =>
        match s.large[largeIndex]? with
        | none => s
        | some object =>
          if object.size ≤ address - start then
            s
          else if object.color = .white then
            s.markLarge largeIndex object
          else
            s

/-- Mark every pointer of a list, in order. -/
def HeapState.markPointers (pointers : List ℕ) : HeapState :=
  pointers.foldl HeapState.markPointer s

/-- The pointers that the type of an object reports. -/
def HeapState.traceObject (mem : Memory) (object typeId : ℕ) : List ℕ :=
  match s.typeInfo typeId with
  | none => []
  | some info => info.trace mem object

variable (span : Span)

/-- Marked slots that have not been scanned. -/
def Span.activeBits : Bitmap :=
  span.markBits.andNot span.scanBits

/-- The scan of a dequeued span: the span afterwards. -/
def Span.scanned : Span :=
  { span with onQueue := false, scanBits := span.scanBits.or span.activeBits }

/-- Objects gathered from a dequeued span, with their types, in address order. -/
def Span.scanBuffer : List (ℕ × ℕ) :=
  span.activeBits.indices.map fun slot ↦
    (span.base + slot * span.elemSize, span.typeIds.getD slot 0)

/-- Trace gathered objects one after the other. -/
def HeapState.traceAll (mem : Memory) (objects : List (ℕ × ℕ)) : HeapState :=
  objects.foldl (fun s object ↦ s.markPointers (s.traceObject mem object.1 object.2)) s

/-- Scan the span at `index`, which has been taken off the span queue. -/
def HeapState.drainSpan (mem : Memory) (index : ℕ) (rest : List ℕ) : HeapState :=
  let s := { s with spanQueue := rest }
  match s.span? index with
  | none => s
  | some span => (s.setSpan index span.scanned).traceAll mem span.scanBuffer

/-- Scan the large object at `index`, which has been taken off its queue. -/
def HeapState.drainLarge (mem : Memory) (index : ℕ) (rest : List ℕ) : HeapState :=
  let s := { s with largeQueue := rest }
  match s.large[index]? with
  | none => s
  | some object =>
    if object.color = .gray then
      let s := { s with large := s.large.set index { object with color := .black } }
      s.traceAll mem [(object.start, object.typeId)]
    else
      s

/-- One round of `drain_marks`; `none` when both queues are empty. -/
def HeapState.drainRound (mem : Memory) : Option HeapState :=
  match s.spanQueue, s.largeQueue with
  | index :: rest, _ => some (s.drainSpan mem index rest)
  | [], index :: rest => some (s.drainLarge mem index rest)
  | [], [] => none

/-- Rounds of `drain_marks`, at most the given number. -/
def HeapState.drainLoop (mem : Memory) : ℕ → HeapState → HeapState
  | 0, s => s
  | rounds + 1, s =>
    match s.drainRound mem with
    | none => s
    | some s => HeapState.drainLoop mem rounds s

/-- Number of allocated slots of a span that are not marked. -/
def Span.unmarkedCount : ℕ :=
  (span.allocBits.andNot span.markBits).count

/-- Objects not yet marked plus queued work; every round of `drain_marks` lowers it. -/
def HeapState.pendingWork : ℕ :=
  (s.spans.map fun span ↦ (span.map Span.unmarkedCount).getD 0).sum +
    (s.large.map fun object ↦ if object.color = .white then 1 else 0).sum +
    s.spanQueue.length + s.largeQueue.length

/-- `drain_marks`: rounds until both queues are empty. -/
def HeapState.drainMarks (mem : Memory) : HeapState :=
  HeapState.drainLoop mem s.pendingWork s

structure PendingFinalizer where
  start : ℕ
  finalize : ℕ
  location : ObjectLocation
deriving DecidableEq, Repr

def HeapState.finalizerOf (typeId : ℕ) : Option ℕ :=
  (s.typeInfo typeId).bind GcTypeInfo.finalize

/-- Allocated slots that are neither marked nor young nor finalized. -/
def Span.deadBits : Bitmap :=
  ((span.allocBits.andNot span.markBits).andNot span.youngBits).andNot span.finalizedBits

def HeapState.spanPending (index : ℕ) (span : Span) : List PendingFinalizer :=
  span.deadBits.indices.filterMap fun slot ↦
    (s.finalizerOf (span.typeIds.getD slot 0)).map fun finalize ↦
      { start := span.slotAddress slot, finalize, location := .span index slot }

def HeapState.largePending (index : ℕ) (object : LargeObject) : Option PendingFinalizer :=
  if object.color.isReached || object.young || object.finalized then
    none
  else
    (s.finalizerOf object.typeId).map fun finalize ↦
      { start := object.start, finalize, location := .large index }

def HeapState.collectPendingFinalizers : List PendingFinalizer :=
  (s.spans.zipIdx.flatMap fun (span, index) ↦ (span.map (s.spanPending index)).getD []) ++
    s.large.zipIdx.filterMap fun (object, index) ↦ s.largePending index object

def HeapState.setFinalized : ObjectLocation → HeapState
  | .span index slot =>
    match s.span? index with
    | none => s
    | some span => s.setSpan index { span with finalizedBits := span.finalizedBits.set slot }
  | .large index =>
    match s.large[index]? with
    | none => s
    | some object => { s with large := s.large.set index { object with finalized := true } }

/-- The survivors of a span: marked slots and young ones. -/
def Span.keepBits : Bitmap :=
  span.markBits.or (span.allocBits.and span.youngBits)

/-- A span after the sweep. -/
def Span.swept : Span :=
  { span with
    allocBits := span.keepBits
    markBits := Bitmap.zeros span.markBits.length
    scanBits := Bitmap.zeros span.scanBits.length
    youngBits := Bitmap.zeros span.youngBits.length
    liveCount := span.keepBits.count
    freeHint := 0
    onQueue := false }

/-- State of the sweep over the spans; `detached` lists start and size of the blocks to release. -/
structure Sweep where
  heap : HeapState
  keptEmpty : ℕ → Bool
  detached : List (ℕ × ℕ)

def HeapState.pushPartial (sizeClass index : ℕ) : HeapState :=
  { s with
    partialSpans := Function.update s.partialSpans sizeClass (index :: s.partialSpans sizeClass) }

/-- Release the span at `index`, whose last object died. -/
def HeapState.releaseSpan (index base : ℕ) : HeapState :=
  { s with
    spans := s.spans.set index none
    spanSlotsFree := index :: s.spanSlotsFree
    spanBaseIndex := s.spanBaseIndex.eraseP fun entry ↦ entry.1 == base }

/-- Sweep the span at `index`. -/
def Sweep.sweepSpan (sweep : Sweep) (index : ℕ) : Sweep :=
  match sweep.heap.span? index with
  | none => sweep
  | some span =>
    let swept := span.swept
    let heap := sweep.heap.setSpan index swept
    if swept.liveCount = 0 then
      if sweep.keptEmpty span.sizeClass then
        { sweep with
          heap := heap.releaseSpan index span.base
          detached := sweep.detached ++ [(span.base, spanBytes)] }
      else
        { sweep with
          heap := heap.pushPartial span.sizeClass index
          keptEmpty := Function.update sweep.keptEmpty span.sizeClass true }
    else if swept.liveCount < span.nelems then
      { sweep with heap := heap.pushPartial span.sizeClass index }
    else
      { sweep with heap }

def LargeObject.survives (object : LargeObject) : Bool :=
  object.color.isReached || object.young

/-- Sweep the large objects. -/
def Sweep.sweepLarge (sweep : Sweep) : Sweep :=
  let (kept, dead) := sweep.heap.large.partition LargeObject.survives
  { sweep with
    heap :=
      { sweep.heap with
        large := kept.map fun object ↦ { object with color := .white, young := false }
        largeIndexDirty := true }
    detached := sweep.detached ++ dead.map fun object ↦ (object.start, object.size) }

/-- `sweep`: the state afterwards and the detached blocks. -/
def HeapState.sweep : HeapState × List (ℕ × ℕ) :=
  let start : Sweep :=
    { heap := { s with openSpan := fun _ ↦ none, partialSpans := fun _ ↦ [] }
      keptEmpty := fun _ ↦ false
      detached := [] }
  let swept := ((List.range s.spans.length).foldl Sweep.sweepSpan start).sweepLarge
  (swept.heap, swept.detached)

/-- The mark phase of a cycle: everything that the roots and the blocks with running finalizers
lead to. -/
def HeapState.markPhase (mem : Memory) (roots : List ℕ) : HeapState :=
  ((s.prepareLargeIndex.markPointers roots).markPointers s.pendingFinalizerRoots).drainMarks mem

/-- The second wave: blocks with a finalizer to run and what they lead to are marked too. -/
def HeapState.finalizerWave (mem : Memory) (pending : List PendingFinalizer) : HeapState :=
  if pending.isEmpty then
    s
  else
    let s := (s.markPointers (pending.map PendingFinalizer.start)).drainMarks mem
    let s := (pending.map PendingFinalizer.location).foldl HeapState.setFinalized s
    { s with
      pendingFinalizerRoots := s.pendingFinalizerRoots ++ pending.map PendingFinalizer.start }

/-- What a cycle leaves when it releases the lock. -/
structure CycleResult where
  heap : HeapState
  pending : List PendingFinalizer
  detached : List (ℕ × ℕ)

/-- The part of `Heap::collect` that runs under the lock. -/
def HeapState.collectLocked (mem : Memory) (roots : List ℕ) : CycleResult :=
  let marked := s.markPhase mem roots
  let pending := marked.collectPendingFinalizers
  let swept := (marked.finalizerWave mem pending).sweep
  { heap := swept.1, pending, detached := swept.2 }

/-- `swap_remove` of the first entry for `start`. -/
def HeapState.forgetPending (start : ℕ) : HeapState :=
  match s.pendingFinalizerRoots.findIdx? (· == start) with
  | none => s
  | some position =>
    let roots := s.pendingFinalizerRoots
    match roots.getLast? with
    | none => s
    | some last => { s with pendingFinalizerRoots := (roots.set position last).dropLast }

end Pon.Gc
