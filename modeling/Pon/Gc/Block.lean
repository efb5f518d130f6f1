import Pon.Gc.Collect
import Pon.Lib.Tracing

/-!
# Blocks of the heap

The abstract heap is the set of its blocks. A block is known by its start address, which does not
change while it is allocated. Pointers resolve to the block that contains them, and blocks hold the
pointers that their type reports, which gives the object graph of the heap.
-/

namespace Pon.Gc

open Pon.Graph

/-- An allocated object. -/
structure Block where
  start : ℕ
  size : ℕ
  typeId : ℕ
  young : Bool
  finalized : Bool
deriving DecidableEq, Repr

/-- The block contains the address. -/
def Block.Contains (block : Block) (address : ℕ) : Prop :=
  block.start ≤ address ∧ address < block.start + block.size

def Span.block (span : Span) (slot : ℕ) : Block where
  start := span.slotAddress slot
  size := span.elemSize
  typeId := span.typeIds.getD slot 0
  young := span.youngBits.get slot
  finalized := span.finalizedBits.get slot

def LargeObject.block (object : LargeObject) : Block where
  start := object.start
  size := object.size
  typeId := object.typeId
  young := object.young
  finalized := object.finalized

variable (s : HeapState)

/-- The block at a location, if it is allocated. -/
def HeapState.blockAt : ObjectLocation → Option Block
  | .span index slot =>
    match s.span? index with
    | none => none
    | some span => if slot < span.nelems && span.allocBits.get slot then some (span.block slot) else none
  | .large index => s.large[index]?.map LargeObject.block

/-- The mark bit of a location. -/
def HeapState.marked : ObjectLocation → Bool
  | .span index slot => ((s.span? index).map fun span ↦ span.markBits.get slot).getD false
  | .large index => (s.large[index]?.map fun object ↦ object.color.isReached).getD false

/-- The block is allocated in the heap. -/
def HeapState.Allocated (block : Block) : Prop :=
  ∃ location, s.blockAt location = some block

/-- `classify_pointer`: the location of the object that contains the address. -/
def HeapState.classifyPointer (address : ℕ) : Option ObjectLocation :=
  if address = 0 then
    none
  else
    let base := spanBaseOf address
    match s.findBase base with
    | some spanIndex =>
      match s.span? spanIndex with
      | none => none
      | some span =>
        let slot := (address - base) / span.elemSize
        if span.nelems ≤ slot || !span.allocBits.get slot then none else some (.span spanIndex slot)
    | none =>
      let s := s.prepareLargeIndex
      match s.findLarge address with
      | none => none
      | some (start, largeIndex) =>
        match s.large[largeIndex]? with
        | none => none
        | some object => if object.size ≤ address - start then none else some (.large largeIndex)

/-- The pointers that the object at a location holds, as its type reports them. -/
def HeapState.children (mem : Memory) (location : ObjectLocation) : List ℕ :=
  match s.blockAt location with
  | none => []
  | some block => s.traceObject mem block.start block.typeId

/-- The locations reachable from root pointers. -/
def World.Reaches (w : World) (roots : List ℕ) : ObjectLocation → Prop :=
  Reach w.heap.classifyPointer (w.heap.children w.mem) roots

/-- The block is reachable from root pointers. -/
def World.ReachesBlock (w : World) (roots : List ℕ) (block : Block) : Prop :=
  ∃ location, w.heap.blockAt location = some block ∧ w.Reaches roots location

/-- Memory regions, start and size, that the spans and the large objects of the heap occupy. -/
def HeapState.regions : List (ℕ × ℕ) :=
  s.spans.filterMap (fun span ↦ span.map fun span ↦ (span.base, spanBytes)) ++
    s.large.map fun object ↦ (object.start, object.size)

def InRegion (region : ℕ × ℕ) (address : ℕ) : Prop :=
  region.1 ≤ address ∧ address < region.1 + region.2

def DisjointRegions (a b : ℕ × ℕ) : Prop :=
  a.1 + a.2 ≤ b.1 ∨ b.1 + b.2 ≤ a.1

theorem DisjointRegions.symm {a b : ℕ × ℕ} (h : DisjointRegions a b) : DisjointRegions b a :=
  Or.symm h

end Pon.Gc
