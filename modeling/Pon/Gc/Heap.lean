import Pon.Lib.Bitmap

/-!
# The heap and its allocator

Small objects live in slots of 64 KiB spans that are segregated by size class; the state of a slot is
a bit in each of the span's bitmaps. Larger objects are system allocations of their own. This module
has the heap state and allocation, `Pon.Gc.Collect` has the collector.

Addresses and indices are natural numbers. A stack of indices has its top first. The system allocator
is outside the heap: an allocation is given the address `fresh` that `alloc_zeroed` returns in case
it is called, and the memory there is zeroed. Concurrent marking is off, so nothing is born marked.
The statistics `bytes_since_collect` and `live_bytes` steer when a collection is started and are left
out.
-/

namespace Pon.Gc

def defaultHeapAlignment : ℕ := 16

def spanBytes : ℕ := 64 * 1024

def smallObjectMax : ℕ := 1024

def numSizeClasses : ℕ := smallObjectMax / defaultHeapAlignment

/-- Exclusive upper bound on registered type ids, which are stored per object in 16 bits. -/
def maxTypeId : ℕ := 2 ^ 16

/-- Contents of the address space, byte by byte. -/
abbrev Memory := ℕ → UInt8

/-- The memory with `size` zero bytes from `start` on. -/
def Memory.zero (mem : Memory) (start size : ℕ) : Memory :=
  fun address ↦ if start ≤ address ∧ address < start + size then 0 else mem address

/-- Layout information of a type: the pointers that `trace` reports for an object, and the finalizer
function if the type has one. -/
structure GcTypeInfo where
  trace : Memory → ℕ → List ℕ
  finalize : Option ℕ

inductive MarkColor
  | white
  | gray
  | black
deriving DecidableEq, Repr

def MarkColor.isReached : MarkColor → Bool
  | .white => false
  | .gray | .black => true

structure Span where
  base : ℕ
  elemSize : ℕ
  nelems : ℕ
  sizeClass : ℕ
  onQueue : Bool
  liveCount : ℕ
  freeHint : ℕ
  zeroedWatermark : ℕ
  allocBits : Bitmap
  markBits : Bitmap
  scanBits : Bitmap
  youngBits : Bitmap
  finalizedBits : Bitmap
  typeIds : List ℕ
deriving DecidableEq, Repr

structure LargeObject where
  start : ℕ
  size : ℕ
  typeId : ℕ
  color : MarkColor
  young : Bool
  finalized : Bool
deriving DecidableEq, Repr

structure HeapState where
  types : List (Option GcTypeInfo)
  spans : List (Option Span)
  spanSlotsFree : List ℕ
  /-- `(span base, spans index)` sorted by base. -/
  spanBaseIndex : List (ℕ × ℕ)
  openSpan : ℕ → Option ℕ
  partialSpans : ℕ → List ℕ
  large : List LargeObject
  /-- `(start address, large index)` sorted by start, valid unless dirty. -/
  largeIndex : List (ℕ × ℕ)
  largeIndexDirty : Bool
  spanQueue : List ℕ
  largeQueue : List ℕ
  pendingFinalizerRoots : List ℕ

def HeapState.new : HeapState where
  types := []
  spans := []
  spanSlotsFree := []
  spanBaseIndex := []
  openSpan _ := none
  partialSpans _ := []
  large := []
  largeIndex := []
  largeIndexDirty := false
  spanQueue := []
  largeQueue := []
  pendingFinalizerRoots := []

/-- The heap state with the memory it manages. -/
structure World where
  heap : HeapState
  mem : Memory

/-- The span at `index`, if the slot is in use. -/
def HeapState.span? (s : HeapState) (index : ℕ) : Option Span :=
  (s.spans[index]?).join

def HeapState.setSpan (s : HeapState) (index : ℕ) (span : Span) : HeapState :=
  { s with spans := s.spans.set index (some span) }

def HeapState.typeInfo (s : HeapState) (typeId : ℕ) : Option GcTypeInfo :=
  (s.types[typeId]?).join

/-- `Heap::register_type`; `none` is the failed assertion on the type id. -/
def HeapState.registerType (s : HeapState) (typeId : ℕ) (info : GcTypeInfo) : Option HeapState :=
  if typeId < maxTypeId then
    let types := s.types ++ List.replicate (typeId + 1 - s.types.length) none
    some { s with types := types.set typeId (some info) }
  else
    none

/-- The size class serving `size` bytes. -/
def sizeClassOf (size : ℕ) : ℕ :=
  (max size 1 - 1) / defaultHeapAlignment

def classElemSize (sizeClass : ℕ) : ℕ :=
  (sizeClass + 1) * defaultHeapAlignment

/-- Number of bitmap words for `nelems` slots. -/
def bitmapWords (nelems : ℕ) : ℕ :=
  (nelems + 63) / 64

def Span.new (sizeClass base : ℕ) : Span :=
  let elemSize := classElemSize sizeClass
  let nelems := spanBytes / elemSize
  let words := bitmapWords nelems
  { base
    elemSize
    nelems
    sizeClass
    onQueue := false
    liveCount := 0
    freeHint := 0
    zeroedWatermark := 0
    allocBits := Bitmap.zeros words
    markBits := Bitmap.zeros words
    scanBits := Bitmap.zeros words
    youngBits := Bitmap.zeros words
    finalizedBits := Bitmap.zeros words
    typeIds := List.replicate nelems 0 }

def Span.slotAddress (span : Span) (slot : ℕ) : ℕ :=
  span.base + slot * span.elemSize

/-- The free bits of word `wordIndex`, without the bits past the last slot. -/
def Span.freeWord (span : Span) (wordIndex : ℕ) : BitVec 64 :=
  let free := ~~~(span.allocBits.getD wordIndex 0#64)
  let tail := span.nelems % 64
  if wordIndex = span.allocBits.length - 1 ∧ tail ≠ 0 then
    free &&& ((1#64 <<< tail) - 1#64)
  else
    free

/-- The search loop of `find_free_slot`, with the number of words left. -/
def Span.findFreeFrom (span : Span) : ℕ → ℕ → Option ℕ
  | 0, _ => none
  | rounds + 1, wordIndex =>
    let free := span.freeWord wordIndex
    if free ≠ 0 then
      some (wordIndex * 64 + Bitmap.trailingZeros free)
    else
      span.findFreeFrom rounds (wordIndex + 1)

/-- The slot found by `find_free_slot`, which also becomes the next free hint. -/
def Span.findFreeSlot (span : Span) : Option ℕ :=
  span.findFreeFrom (span.allocBits.length - span.freeHint / 64) (span.freeHint / 64)

/-- Insert a span into the sorted base index. -/
def insertBase (base index : ℕ) (entries : List (ℕ × ℕ)) : List (ℕ × ℕ) :=
  entries.takeWhile (fun entry ↦ entry.1 < base) ++
    (base, index) :: entries.dropWhile (fun entry ↦ entry.1 < base)

/-- `new_span`: the state with the new span and its index. -/
def HeapState.newSpan (s : HeapState) (sizeClass fresh : ℕ) : HeapState × ℕ :=
  let span := Span.new sizeClass fresh
  match s.spanSlotsFree with
  | index :: rest =>
    ({ s with
        spans := s.spans.set index (some span)
        spanSlotsFree := rest
        spanBaseIndex := insertBase fresh index s.spanBaseIndex }, index)
  | [] =>
    ({ s with
        spans := s.spans ++ [some span]
        spanBaseIndex := insertBase fresh s.spans.length s.spanBaseIndex }, s.spans.length)

/-- The loop of `take_allocatable_span`: the first span on the stack with a free slot, and the rest
of the stack. -/
def HeapState.popPartial (s : HeapState) : List ℕ → Option ℕ × List ℕ
  | [] => (none, [])
  | index :: rest =>
    match s.span? index with
    | some span => if span.liveCount < span.nelems then (some index, rest) else s.popPartial rest
    | none => s.popPartial rest

/-- `take_allocatable_span`; a new span is backed by zeroed memory at `fresh`. -/
def World.takeAllocatableSpan (w : World) (sizeClass fresh : ℕ) : World × ℕ :=
  let (found, rest) := w.heap.popPartial (w.heap.partialSpans sizeClass)
  let heap := { w.heap with partialSpans := Function.update w.heap.partialSpans sizeClass rest }
  match found with
  | some index => ({ w with heap }, index)
  | none =>
    let (heap, index) := heap.newSpan sizeClass fresh
    ({ heap, mem := w.mem.zero fresh spanBytes }, index)

/-- Turn the free slot `slot` of a span into an object of type `typeId`. -/
def Span.allocSlot (span : Span) (slot typeId : ℕ) : Span :=
  { span with
    freeHint := slot
    allocBits := span.allocBits.set slot
    youngBits := span.youngBits.set slot
    finalizedBits := span.finalizedBits.clear slot
    typeIds := span.typeIds.set slot (typeId % 2 ^ 16)
    liveCount := span.liveCount + 1
    zeroedWatermark := if slot < span.zeroedWatermark then span.zeroedWatermark else slot + 1 }

/-- The span that `alloc_small` tries: the open span of the class, else one that becomes the open
span. -/
def World.currentSpan (w : World) (sizeClass fresh : ℕ) : World × ℕ :=
  match w.heap.openSpan sizeClass with
  | some index => (w, index)
  | none =>
    let (w, index) := w.takeAllocatableSpan sizeClass fresh
    ({ w with heap.openSpan := Function.update w.heap.openSpan sizeClass (some index) }, index)

def World.closeSpan (w : World) (sizeClass : ℕ) : World :=
  { w with heap.openSpan := Function.update w.heap.openSpan sizeClass none }

/-- Hand out a free slot of the span at `index`; a slot that may have been used before is zeroed. -/
def World.takeSlot (w : World) (index : ℕ) (span : Span) (slot typeId : ℕ) : World × ℕ :=
  let raw := span.slotAddress slot
  let mem := if slot < span.zeroedWatermark then w.mem.zero raw span.elemSize else w.mem
  ({ heap := w.heap.setSpan index (span.allocSlot slot typeId), mem }, raw)

/-- The loop of `alloc_small` with a bound on its rounds; `none` is a loop that has not returned. -/
def World.allocSmall (sizeClass typeId fresh : ℕ) : ℕ → World → Option (World × ℕ)
  | 0, _ => none
  | rounds + 1, w =>
    let (w, index) := w.currentSpan sizeClass fresh
    match w.heap.span? index with
    | none => World.allocSmall sizeClass typeId fresh rounds (w.closeSpan sizeClass)
    | some span =>
      match span.findFreeSlot with
      | none => World.allocSmall sizeClass typeId fresh rounds (w.closeSpan sizeClass)
      | some slot => some (w.takeSlot index span slot typeId)

def World.allocLarge (size typeId fresh : ℕ) (w : World) : World × ℕ :=
  let allocatedSize := max size 1
  let object : LargeObject :=
    { start := fresh, size := allocatedSize, typeId := typeId % 2 ^ 16, color := .white, young := true,
      finalized := false }
  ({ heap := { w.heap with large := w.heap.large ++ [object], largeIndexDirty := true }
     mem := w.mem.zero fresh allocatedSize }, fresh)

/-- `Heap::alloc` with a bound on the rounds of the slot search; `none` is an unregistered type or a
search that has not returned. -/
def World.alloc (rounds size typeId fresh : ℕ) (w : World) : Option (World × ℕ) :=
  if (w.heap.typeInfo typeId).isNone then
    none
  else if size ≤ smallObjectMax then
    World.allocSmall (sizeClassOf size) typeId fresh rounds w
  else
    some (World.allocLarge size typeId fresh w)

/-- Size and alignment of the system allocation that a request of `size` bytes may cause. -/
def requestLayout (size : ℕ) : ℕ × ℕ :=
  if size ≤ smallObjectMax then (spanBytes, spanBytes) else (max size 1, defaultHeapAlignment)

end Pon.Gc
