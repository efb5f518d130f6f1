import Pon.Gc.HeapValid

/-!
# Marking

A mark phase changes mark bits, scan bits and queues, and no block. The invariant `Marking` carries
the trace of `Pon.Lib.Tracing` through it. Its end result is that exactly the reachable blocks are
marked.
-/

namespace Pon.Gc

open Pon.Graph

/-! ## Same blocks -/

/-- The span without its marking state. -/
def Span.unmark (span : Span) : Span :=
  { span with markBits := [], scanBits := [], onQueue := false }

def LargeObject.unmark (object : LargeObject) : LargeObject :=
  { object with color := .white }

/-- The states differ in their marking state and in the index of large objects only. -/
structure SameBlocks (s s' : HeapState) : Prop where
  types : s'.types = s.types
  pending : s'.pendingFinalizerRoots = s.pendingFinalizerRoots
  spans : s'.spans.map (Option.map Span.unmark) = s.spans.map (Option.map Span.unmark)
  large : s'.large.map LargeObject.unmark = s.large.map LargeObject.unmark

namespace SameBlocks

variable {s s' s'' : HeapState}

theorem refl (s : HeapState) : SameBlocks s s :=
  ⟨rfl, rfl, rfl, rfl⟩

theorem trans (h : SameBlocks s s') (h' : SameBlocks s' s'') : SameBlocks s s'' :=
  ⟨h'.types.trans h.types, h'.pending.trans h.pending, h'.spans.trans h.spans, h'.large.trans h.large⟩

theorem span?_unmark (h : SameBlocks s s') (index : ℕ) :
    (s'.span? index).map Span.unmark = (s.span? index).map Span.unmark := by
  have hspans := congrArg (fun spans ↦ (spans[index]?).join) h.spans
  simp only [List.getElem?_map] at hspans
  unfold HeapState.span?
  cases hs : s.spans[index]? <;> cases hs' : s'.spans[index]? <;> simp_all

variable {index : ℕ}

section

variable (h : SameBlocks s s')
include h

/-- A span of one state has a counterpart in the other. -/
theorem exists_span {span' : Span} (hspan : s'.span? index = some span') :
    ∃ span, s.span? index = some span ∧ span.unmark = span'.unmark := by
  have hmap := h.span?_unmark index
  rw [hspan, Option.map_some, eq_comm, Option.map_eq_some_iff] at hmap
  exact hmap

theorem getElem?_unmark (index : ℕ) :
    s'.large[index]?.map LargeObject.unmark = s.large[index]?.map LargeObject.unmark := by
  have hlarge := congrArg (fun large ↦ large[index]?) h.large
  simpa only [List.getElem?_map] using hlarge

theorem blockAt (location : ObjectLocation) :
    s'.blockAt location = s.blockAt location := by
  cases location with
  | span index slot =>
    have hblock : ∀ s : HeapState, s.blockAt (.span index slot) =
        ((s.span? index).map Span.unmark).bind fun span ↦
          if slot < span.nelems && span.allocBits.get slot then some (span.block slot) else none := by
      intro s
      simp only [HeapState.blockAt]
      cases s.span? index <;> rfl
    rw [hblock, hblock, h.span?_unmark]
  | large index =>
    have hblock : ∀ s : HeapState, s.blockAt (.large index) =
        (s.large[index]?.map LargeObject.unmark).map LargeObject.block := by
      intro s
      simp only [HeapState.blockAt, Option.map_map]
      rfl
    rw [hblock, hblock, h.getElem?_unmark]

theorem regions : s'.regions = s.regions := by
  have hregions : ∀ s : HeapState, s.regions =
      (s.spans.map (Option.map Span.unmark)).filterMap
        (fun span ↦ span.map fun span ↦ (span.base, spanBytes)) ++
      (s.large.map LargeObject.unmark).map fun object ↦ (object.start, object.size) := by
    intro s
    rw [List.filterMap_map, List.map_map]
    unfold HeapState.regions
    congr 1
    apply List.filterMap_congr
    intro span _
    cases span <;> rfl
  rw [hregions, hregions, h.spans, h.large]

theorem typeInfo (typeId : ℕ) : s'.typeInfo typeId = s.typeInfo typeId := by
  rw [HeapState.typeInfo, HeapState.typeInfo, h.types]

theorem traceObject (mem : Memory) (object typeId : ℕ) :
    s'.traceObject mem object typeId = s.traceObject mem object typeId := by
  rw [HeapState.traceObject, HeapState.traceObject, h.typeInfo]

theorem classifyPointer (hvalid : s.Valid) (hvalid' : s'.Valid) :
    s'.classifyPointer = s.classifyPointer := by
  funext address
  apply Option.ext
  intro location
  rw [hvalid.classifyPointer_eq_some, hvalid'.classifyPointer_eq_some, h.blockAt]

end

theorem setSpan {old : Span} (hold : s.span? index = some old) (span : Span)
    (hsame : span.unmark = old.unmark) : SameBlocks s (s.setSpan index span) := by
  refine ⟨rfl, rfl, ?_, rfl⟩
  apply map_set_of_eq (HeapState.span?_eq_some.mp hold)
  rw [Option.map_some, hsame, Option.map_some]

theorem setLarge {old : LargeObject} (hold : s.large[index]? = some old) (object : LargeObject)
    (hsame : object.unmark = old.unmark) :
    SameBlocks s { s with large := s.large.set index object } :=
  ⟨rfl, rfl, rfl, map_set_of_eq hold hsame⟩

theorem prepareLargeIndex (s : HeapState) : SameBlocks s s.prepareLargeIndex := by
  unfold HeapState.prepareLargeIndex
  split
  · exact ⟨rfl, rfl, rfl, rfl⟩
  · exact refl s

end SameBlocks

/-! ## Marking one pointer -/

/-- The scan bit of a location. -/
def HeapState.scannedAt (s : HeapState) : ObjectLocation → Bool
  | .span index slot => ((s.span? index).map fun span ↦ span.scanBits.get slot).getD false
  | .large index => (s.large[index]?.map fun object ↦ decide (object.color = .black)).getD false

theorem HeapState.markPointer_cases {s : HeapState} (hclean : s.largeIndexDirty = false)
    (address : ℕ) :
    (s.classifyPointer address = none ∧ s.markPointer address = s) ∨
    (∃ index slot span, s.classifyPointer address = some (.span index slot) ∧
      s.span? index = some span ∧ span.allocBits.get slot = true ∧
      s.markPointer address = if span.markBits.get slot then s else s.markSlot index span slot) ∨
    ∃ index object, s.classifyPointer address = some (.large index) ∧ s.large[index]? = some object ∧
      s.markPointer address = if object.color = .white then s.markLarge index object else s := by
  have hprepared : s.prepareLargeIndex = s := by simp [HeapState.prepareLargeIndex, hclean]
  unfold HeapState.classifyPointer HeapState.markPointer
  by_cases hzero : address = 0
  · exact Or.inl ⟨if_pos hzero, if_pos hzero⟩
  simp only [hzero, if_false, hprepared]
  cases hfind : s.findBase (spanBaseOf address) with
  | some index =>
    simp only
    cases hspan : s.span? index with
    | none => exact Or.inl ⟨by simp, by simp⟩
    | some span =>
      simp only
      split
      · exact Or.inl ⟨rfl, rfl⟩
      · rename_i hfree
        simp only [Bool.or_eq_true, decide_eq_true_eq, Bool.not_eq_eq_eq_not, Bool.not_true,
          not_or, not_le, Bool.not_eq_false] at hfree
        exact Or.inr (Or.inl ⟨index, _, span, rfl, hspan, hfree.2, rfl⟩)
  | none =>
    simp only
    cases hlast : s.findLarge address with
    | none => exact Or.inl ⟨by simp, by simp⟩
    | some entry =>
      obtain ⟨start, index⟩ := entry
      simp only
      cases hobject : s.large[index]? with
      | none => exact Or.inl ⟨by simp, by simp⟩
      | some object =>
        simp only
        split
        · exact Or.inl ⟨rfl, rfl⟩
        · exact Or.inr (Or.inr ⟨index, object, rfl, hobject, rfl⟩)

variable {index slot address : ℕ} {span : Span} {object : LargeObject} {rest : List ℕ}

/-- Replacing an element of a list changes a sum by the difference. -/
theorem sum_map_set {α : Type*} (f : α → ℕ) {l : List α} {old : α} (hold : l[index]? = some old)
    (new : α) :
    ((l.set index new).map f).sum + f old = (l.map f).sum + f new := by
  induction l generalizing index with
  | nil => simp at hold
  | cons head tail ih =>
    cases index with
    | zero =>
      obtain rfl : head = old := by simpa using hold
      simp only [List.set_cons_zero, List.map_cons, List.sum_cons]
      omega
    | succ index =>
      have htail := ih (show tail[index]? = some old by simpa using hold)
      simp only [List.set_cons_succ, List.map_cons, List.sum_cons]
      omega

/-- State of a mark phase over the heap `s₀`: what is queued, and the trace with the pointers in
`owed` still to be visited. -/
structure Marking (s₀ : HeapState) (mem : Memory) (roots owed : List ℕ) (s : HeapState) : Prop where
  valid₀ : s₀.Valid
  valid : s.Valid
  clean : s.largeIndexDirty = false
  same : SameBlocks s₀ s
  active_queued : ∀ index span, s.span? index = some span → ∀ slot,
    span.markBits.get slot = true → span.scanBits.get slot = false → span.onQueue = true
  span_queued : ∀ index span, s.span? index = some span → span.onQueue = true → index ∈ s.spanQueue
  large_queued : ∀ index object, s.large[index]? = some object → object.color = .gray →
    index ∈ s.largeQueue
  tracing : Tracing s₀.classifyPointer (s₀.children mem) roots (fun location ↦ s.marked location = true)
    (fun location ↦ s.scannedAt location = true) owed

variable {s₀ s : HeapState} {mem : Memory} {roots owed : List ℕ}

theorem HeapState.marked_markSlot (hvalid : SpanValid span) (hspan : s.span? index = some span)
    (halloc : span.allocBits.get slot = true) (location : ObjectLocation) :
    (s.markSlot index span slot).marked location = true ↔
      s.marked location = true ∨ location = .span index slot := by
  have hset := HeapState.span?_setSpan (HeapState.lt_of_span? hspan)
    { span with markBits := span.markBits.set slot, onQueue := true }
  have hword : slot / 64 < span.markBits.length := by
    rw [hvalid.mark_length]
    exact slot_div_lt_bitmapWords (hvalid.alloc_lt slot halloc)
  cases location with
  | large i => simp [HeapState.marked, HeapState.markSlot, HeapState.setSpan]
  | span i j =>
    have hspan? : (s.markSlot index span slot).span? i = _ := hset i
    simp only [HeapState.marked, hspan?, ObjectLocation.span.injEq]
    by_cases hi : i = index
    · subst hi
      simp [hspan, Bitmap.get_set hword, or_comm]
    · simp [hi]

theorem HeapState.scannedAt_markSlot (hspan : s.span? index = some span) (location : ObjectLocation) :
    (s.markSlot index span slot).scannedAt location = s.scannedAt location := by
  have hset := HeapState.span?_setSpan (HeapState.lt_of_span? hspan)
    { span with markBits := span.markBits.set slot, onQueue := true }
  cases location with
  | large i => rfl
  | span i j =>
    have hspan? : (s.markSlot index span slot).span? i = _ := hset i
    simp only [HeapState.scannedAt, hspan?]
    by_cases hi : i = index
    · subst hi
      simp [hspan]
    · simp [hi]

theorem HeapState.pendingWork_markSlot (hvalid : SpanValid span) (hspan : s.span? index = some span)
    (halloc : span.allocBits.get slot = true) (hmark : span.markBits.get slot = false) :
    (s.markSlot index span slot).pendingWork ≤ s.pendingWork := by
  have hsum := sum_map_set (fun span ↦ (span.map Span.unmarkedCount).getD 0)
    (HeapState.span?_eq_some.mp hspan)
    (some { span with markBits := span.markBits.set slot, onQueue := true })
  have hcount := hvalid.unmarkedCount_mark halloc hmark true
  simp only [Option.map_some, Option.getD_some] at hsum
  have hqueue : (s.markSlot index span slot).spanQueue.length ≤ s.spanQueue.length + 1 := by
    simp only [HeapState.markSlot]
    split <;> simp
  simp only [HeapState.pendingWork]
  simp only [HeapState.markSlot, HeapState.setSpan] at hqueue ⊢
  omega

theorem Marking.markSlot (h : Marking s₀ mem roots (address :: owed) s)
    (hresolve : s.classifyPointer address = some (.span index slot))
    (hspan : s.span? index = some span) (halloc : span.allocBits.get slot = true) :
    Marking s₀ mem roots owed (s.markSlot index span slot) := by
  have hvalid := h.valid.spans index span hspan
  have hmarked := HeapState.marked_markSlot hvalid hspan halloc
  have hset := HeapState.span?_setSpan (HeapState.lt_of_span? hspan)
    { span with markBits := span.markBits.set slot, onQueue := true }
  have hqueue : ∀ j, j ∈ s.spanQueue → j ∈ (s.markSlot index span slot).spanQueue := by
    intro j hj
    simp only [HeapState.markSlot]
    split
    · exact hj
    · exact List.mem_append_left _ hj
  have hself : index ∈ (s.markSlot index span slot).spanQueue := by
    simp only [HeapState.markSlot]
    split
    · rename_i hon
      exact h.span_queued index span hspan hon
    · simp
  refine
    { h with
      valid := { h.valid.setSpan hspan (hvalid.mark halloc true) rfl rfl with }
      same := h.same.trans { SameBlocks.setSpan hspan { span with
        markBits := span.markBits.set slot, onQueue := true } rfl with }
      active_queued := ?_
      span_queued := ?_
      tracing := ?_ }
  · intro j other hother
    have hspan? := (hset j).symm.trans hother
    split at hspan?
    · cases hspan?
      exact fun _ _ _ ↦ rfl
    · exact h.active_queued j other hspan?
  · intro j other hother hon
    have hspan? := (hset j).symm.trans hother
    split at hspan?
    · rename_i hj
      exact hj ▸ hself
    · exact hqueue j (h.span_queued j other hspan? hon)
  · simp only [HeapState.scannedAt_markSlot hspan]
    apply h.tracing.visit
    intro location
    rw [hmarked, ← h.same.classifyPointer h.valid₀ h.valid, hresolve, Option.some.injEq,
      eq_comm (a := ObjectLocation.span index slot)]

theorem HeapState.getElem?_setLarge {old : LargeObject} (hold : s.large[index]? = some old) (j : ℕ) :
    (s.large.set index object)[j]? = if j = index then some object else s.large[j]? := by
  obtain ⟨hlt, _⟩ := List.getElem?_eq_some_iff.mp hold
  rw [List.getElem?_set]
  by_cases hj : index = j
  · subst hj
    simp [hlt]
  · simp [hj, Ne.symm hj]

theorem HeapState.pendingWork_markLarge (hobject : s.large[index]? = some object)
    (hwhite : object.color = .white) :
    (s.markLarge index object).pendingWork ≤ s.pendingWork := by
  have hsum := sum_map_set (fun object ↦ if object.color = .white then 1 else 0) hobject
    { object with color := .gray }
  simp only [hwhite, if_true, reduceCtorEq, if_false] at hsum
  simp only [HeapState.pendingWork, HeapState.markLarge, List.length_append, List.length_singleton]
  omega

section

variable (h : Marking s₀ mem roots (address :: owed) s)
include h

theorem Marking.markLarge (hresolve : s.classifyPointer address = some (.large index))
    (hobject : s.large[index]? = some object) (hwhite : object.color = .white) :
    Marking s₀ mem roots owed (s.markLarge index object) := by
  have hset : ∀ j, (s.markLarge index object).large[j]? = _ := HeapState.getElem?_setLarge hobject
  have hnew := h.valid.setLarge hobject { object with color := .gray } rfl rfl
  have hsame := SameBlocks.setLarge hobject { object with color := .gray } rfl
  refine
    { h with
      valid := { hnew with }
      same := h.same.trans { hsame with }
      large_queued := ?_
      tracing := ?_ }
  · intro j other hother hgray
    simp only [HeapState.markLarge, List.mem_append, List.mem_singleton]
    rw [hset] at hother
    split at hother
    · rename_i hj
      exact Or.inr hj
    · exact Or.inl (h.large_queued j other hother hgray)
  · have hscanned : ∀ location, (s.markLarge index object).scannedAt location = s.scannedAt location := by
      intro location
      cases location with
      | span i j => rfl
      | large i =>
        simp only [HeapState.scannedAt, hset]
        by_cases hi : i = index
        · simp [hi, hobject, hwhite]
        · simp [hi]
    simp only [hscanned]
    apply h.tracing.visit
    intro location
    rw [← h.same.classifyPointer h.valid₀ h.valid, hresolve, Option.some.injEq]
    cases location with
    | span i j => simp [HeapState.marked, HeapState.markLarge, HeapState.span?]
    | large i =>
      simp only [HeapState.marked, hset, ObjectLocation.large.injEq]
      by_cases hi : i = index
      · simp [hi, MarkColor.isReached]
      · simp [hi, Ne.symm hi]

/-- Visit a pointer that resolves to nothing, or to a block that is marked already. -/
theorem Marking.skip
    (hmarked : ∀ location, s.classifyPointer address = some location → s.marked location = true) :
    Marking s₀ mem roots owed s := by
  refine { h with tracing := h.tracing.visit fun location ↦ ?_ }
  rw [← h.same.classifyPointer h.valid₀ h.valid]
  constructor
  · exact Or.inl
  · rintro (hold | hnew)
    · exact hold
    · exact hmarked location hnew

theorem Marking.markPointer :
    Marking s₀ mem roots owed (s.markPointer address) ∧
      (s.markPointer address).pendingWork ≤ s.pendingWork := by
  rcases HeapState.markPointer_cases h.clean address with ⟨hnone, heq⟩ |
    ⟨index, slot, span, hresolve, hspan, halloc, heq⟩ | ⟨index, object, hresolve, hobject, heq⟩
  · rw [heq]
    refine ⟨h.skip fun location hsome ↦ ?_, le_refl _⟩
    rw [hnone] at hsome
    cases hsome
  · rw [heq]
    split
    · rename_i hmark
      refine ⟨h.skip fun location hsome ↦ ?_, le_refl _⟩
      rw [hresolve, Option.some.injEq] at hsome
      simp [← hsome, HeapState.marked, hspan, hmark]
    · rename_i hmark
      exact ⟨h.markSlot hresolve hspan halloc, HeapState.pendingWork_markSlot
        (h.valid.spans index span hspan) hspan halloc (by simpa using hmark)⟩
  · rw [heq]
    split
    · rename_i hwhite
      exact ⟨h.markLarge hresolve hobject hwhite, HeapState.pendingWork_markLarge hobject hwhite⟩
    · rename_i hcolor
      refine ⟨h.skip fun location hsome ↦ ?_, le_refl _⟩
      rw [hresolve, Option.some.injEq] at hsome
      rw [← hsome]
      simp only [HeapState.marked, hobject, Option.map_some, Option.getD_some]
      cases hc : object.color with
      | white => exact (hcolor hc).elim
      | gray => rfl
      | black => rfl

end

/-- Visit pointers one after the other. -/
theorem Marking.markPointers {pointers : List ℕ} (h : Marking s₀ mem roots (pointers ++ owed) s) :
    Marking s₀ mem roots owed (s.markPointers pointers) ∧
      (s.markPointers pointers).pendingWork ≤ s.pendingWork := by
  induction pointers generalizing s with
  | nil => exact ⟨h, le_refl _⟩
  | cons address rest ih =>
    obtain ⟨hfirst, hwork⟩ := h.markPointer
    obtain ⟨hrest, hwork'⟩ := ih hfirst
    exact ⟨hrest, hwork'.trans hwork⟩

/-! ## Draining the queues -/

/-- The pointers of all gathered objects. -/
def HeapState.tracedPointers (s : HeapState) (mem : Memory) (objects : List (ℕ × ℕ)) : List ℕ :=
  objects.flatMap fun object ↦ s.traceObject mem object.1 object.2

/-- Trace gathered objects one after the other. -/
theorem Marking.traceAll {objects : List (ℕ × ℕ)}
    (h : Marking s₀ mem roots (s₀.tracedPointers mem objects ++ owed) s) :
    Marking s₀ mem roots owed (s.traceAll mem objects) ∧
      (s.traceAll mem objects).pendingWork ≤ s.pendingWork := by
  induction objects generalizing s with
  | nil => exact ⟨h, le_refl _⟩
  | cons object rest ih =>
    have hsplit : s₀.tracedPointers mem (object :: rest) ++ owed =
        s.traceObject mem object.1 object.2 ++ (s₀.tracedPointers mem rest ++ owed) := by
      rw [h.same.traceObject]
      simp [HeapState.tracedPointers]
    obtain ⟨hfirst, hwork⟩ := (hsplit ▸ h).markPointers
    obtain ⟨hrest, hwork'⟩ := ih hfirst
    exact ⟨hrest, hwork'.trans hwork⟩

/-- Taking an entry off the span queue. -/
theorem Marking.popSpan (h : Marking s₀ mem roots owed s) (hqueue : s.spanQueue = index :: rest)
    (hidle : s.span? index = none) :
    Marking s₀ mem roots owed { s with spanQueue := rest } := by
  refine
    { h with
      valid := { h.valid with }
      same := { h.same with }
      span_queued := ?_ }
  intro j span hspan hon
  have hmem := h.span_queued j span hspan hon
  rw [hqueue] at hmem
  rcases List.mem_cons.mp hmem with rfl | hrest
  · rw [HeapState.span?] at hidle hspan
    rw [hidle] at hspan
    cases hspan
  · exact hrest

/-- The objects gathered from a span are its marked slots that have not been scanned. -/
theorem Marking.children_scanBuffer (h : Marking s₀ mem roots owed s)
    (hspan : s.span? index = some span) (p : ℕ) :
    p ∈ s₀.tracedPointers mem span.scanBuffer ↔ ∃ slot, span.markBits.get slot = true ∧
      span.scanBits.get slot = false ∧ p ∈ s₀.children mem (.span index slot) := by
  have hvalid := h.valid.spans index span hspan
  have hchildren : ∀ slot, span.markBits.get slot = true → s₀.children mem (.span index slot) =
      s₀.traceObject mem (span.base + slot * span.elemSize) (span.typeIds.getD slot 0) := by
    intro slot hmark
    have halloc := hvalid.mark_alloc slot hmark
    have hblock : s₀.blockAt (.span index slot) = some (span.block slot) := by
      rw [← h.same.blockAt, HeapState.blockAt_span_eq_some]
      exact ⟨span, hspan, hvalid.alloc_lt slot halloc, halloc, rfl⟩
    unfold HeapState.children
    rw [hblock]
    rfl
  simp only [HeapState.tracedPointers, Span.scanBuffer, List.mem_flatMap, List.mem_map]
  constructor
  · rintro ⟨_, ⟨slot, hslot, rfl⟩, hp⟩
    obtain ⟨hmark, hscan⟩ := hvalid.mem_activeBits.mp hslot
    exact ⟨slot, hmark, hscan, (hchildren slot hmark) ▸ hp⟩
  · rintro ⟨slot, hmark, hscan, hp⟩
    exact ⟨_, ⟨slot, hvalid.mem_activeBits.mpr ⟨hmark, hscan⟩, rfl⟩, (hchildren slot hmark) ▸ hp⟩

/-- Scanning a dequeued span: the pointers of its gathered objects are owed. -/
theorem Marking.scanSpan (h : Marking s₀ mem roots [] s) (hqueue : s.spanQueue = index :: rest)
    (hspan : s.span? index = some span) :
    Marking s₀ mem roots (s₀.tracedPointers mem span.scanBuffer ++ [])
      (({ s with spanQueue := rest } : HeapState).setSpan index span.scanned) := by
  have hvalid := h.valid.spans index span hspan
  have hset : ∀ j, (({ s with spanQueue := rest } : HeapState).setSpan index span.scanned).span? j =
      if j = index then some span.scanned else s.span? j :=
    HeapState.span?_setSpan (HeapState.lt_of_span? hspan) span.scanned
  have hmarked : ∀ location, (({ s with spanQueue := rest } : HeapState).setSpan index
      span.scanned).marked location = s.marked location := by
    intro location
    cases location with
    | large i => rfl
    | span i j =>
      simp only [HeapState.marked, hset]
      by_cases hi : i = index
      · simp [hi, hspan, Span.scanned]
      · simp [hi]
  have hsame := SameBlocks.setSpan hspan span.scanned rfl
  refine
    { h with
      valid := { h.valid.setSpan hspan hvalid.scanned rfl rfl with }
      same := h.same.trans { hsame with }
      active_queued := ?_
      span_queued := ?_
      tracing := ?_ }
  · intro j other hother slot hmark hscan
    rw [hset] at hother
    split at hother
    · cases hother
      rw [hvalid.get_scanned] at hscan
      exact (Bool.false_ne_true (hscan.symm.trans hmark)).elim
    · exact h.active_queued j other hother slot hmark hscan
  · intro j other hother hon
    rw [hset] at hother
    split at hother
    · cases hother
      cases hon
    · rename_i hj
      have hmem := h.span_queued j other hother hon
      rw [hqueue] at hmem
      exact (List.mem_cons.mp hmem).resolve_left hj
  · simp only [hmarked]
    apply h.tracing.scan
    · intro location hscanned
      cases location with
      | large i => exact Or.inl hscanned
      | span i slot =>
        simp only [HeapState.scannedAt, hset] at hscanned
        by_cases hi : i = index
        · subst hi
          simp only [if_true, Option.map_some, Option.getD_some, hvalid.get_scanned] at hscanned
          cases hscan : span.scanBits.get slot with
          | true => exact Or.inl (by simp [HeapState.scannedAt, hspan, hscan])
          | false =>
            refine Or.inr ⟨by simp [HeapState.marked, hspan, hscanned], fun p hp ↦ ?_⟩
            exact (h.children_scanBuffer hspan p).mpr ⟨slot, hscanned, hscan, hp⟩
        · simp only [hi, if_false] at hscanned
          exact Or.inl hscanned
    · intro p hp
      obtain ⟨slot, hmark, _, hchild⟩ := (h.children_scanBuffer hspan p).mp hp
      exact ⟨.span index slot, by simp [HeapState.marked, hspan, hmark], hchild⟩

/-- Taking an entry off the queue of large objects that is not waiting to be scanned. -/
theorem Marking.popLarge (h : Marking s₀ mem roots owed s) (hqueue : s.largeQueue = index :: rest)
    (hidle : ∀ object, s.large[index]? = some object → object.color ≠ .gray) :
    Marking s₀ mem roots owed { s with largeQueue := rest } := by
  refine
    { h with
      valid := { h.valid with }
      same := { h.same with }
      large_queued := ?_ }
  intro j object hobject hgray
  have hmem := h.large_queued j object hobject hgray
  rw [hqueue] at hmem
  rcases List.mem_cons.mp hmem with rfl | hrest
  · exact (hidle object hobject hgray).elim
  · exact hrest

variable (h : Marking s₀ mem roots [] s)
include h

theorem Marking.scanLarge (hqueue : s.largeQueue = index :: rest)
    (hobject : s.large[index]? = some object) (hgray : object.color = .gray) :
    Marking s₀ mem roots (s₀.tracedPointers mem [(object.start, object.typeId)] ++ [])
      { s with largeQueue := rest, large := s.large.set index { object with color := .black } } := by
  have hset : ∀ j, (s.large.set index { object with color := .black })[j]? = _ :=
    HeapState.getElem?_setLarge hobject
  have hchildren : s₀.children mem (.large index) =
      s₀.tracedPointers mem [(object.start, object.typeId)] := by
    have hblock : s₀.blockAt (.large index) = some object.block := by
      rw [← h.same.blockAt, HeapState.blockAt_large_eq_some]
      exact ⟨object, hobject, rfl⟩
    unfold HeapState.children
    rw [hblock]
    simp [HeapState.tracedPointers, LargeObject.block]
  have hmark : s.marked (.large index) = true := by
    simp [HeapState.marked, hobject, hgray, MarkColor.isReached]
  have hnew := h.valid.setLarge hobject { object with color := .black } rfl rfl
  have hsame := SameBlocks.setLarge hobject { object with color := .black } rfl
  refine
    { h with
      valid := { hnew with }
      same := h.same.trans { hsame with }
      large_queued := ?_
      tracing := ?_ }
  · intro j other hother hcolor
    simp only [hset] at hother
    split at hother
    · cases hother
      cases hcolor
    · rename_i hj
      have hmem := h.large_queued j other hother hcolor
      rw [hqueue] at hmem
      exact (List.mem_cons.mp hmem).resolve_left hj
  · have hmarked : ∀ location, HeapState.marked { s with
        largeQueue := rest, large := s.large.set index { object with color := .black } } location =
          s.marked location := by
      intro location
      cases location with
      | span i j => rfl
      | large i =>
        simp only [HeapState.marked, hset]
        by_cases hi : i = index
        · simp [hi, hobject, hgray, MarkColor.isReached]
        · simp [hi]
    simp only [hmarked]
    apply h.tracing.scan
    · intro location hscanned
      cases location with
      | span i j => exact Or.inl hscanned
      | large i =>
        by_cases hi : i = index
        · subst hi
          exact Or.inr ⟨hmark, fun p hp ↦ hchildren ▸ hp⟩
        · simp only [HeapState.scannedAt, hset, hi, if_false] at hscanned
          exact Or.inl hscanned
    · intro p hp
      exact ⟨.large index, hmark, hchildren ▸ hp⟩

theorem Marking.drainSpan (hqueue : s.spanQueue = index :: rest) :
    Marking s₀ mem roots [] (s.drainSpan mem index rest) ∧
      (s.drainSpan mem index rest).pendingWork < s.pendingWork := by
  unfold HeapState.drainSpan
  have hspan? : ({ s with spanQueue := rest } : HeapState).span? index = s.span? index := rfl
  simp only [hspan?]
  cases hspan : s.span? index with
  | none =>
    refine ⟨h.popSpan hqueue hspan, ?_⟩
    simp [HeapState.pendingWork, hqueue]
  | some span =>
    obtain ⟨htraced, hwork⟩ := (h.scanSpan hqueue hspan).traceAll
    refine ⟨htraced, lt_of_le_of_lt hwork ?_⟩
    have hsum := sum_map_set (fun span ↦ (span.map Span.unmarkedCount).getD 0)
      (HeapState.span?_eq_some.mp hspan) (some span.scanned)
    have hcount : span.scanned.unmarkedCount = span.unmarkedCount := rfl
    simp only [Option.map_some, Option.getD_some, hcount] at hsum
    simp only [HeapState.pendingWork, HeapState.setSpan, hqueue, List.length_cons]
    omega

theorem Marking.drainLarge (hqueue : s.largeQueue = index :: rest) :
    Marking s₀ mem roots [] (s.drainLarge mem index rest) ∧
      (s.drainLarge mem index rest).pendingWork < s.pendingWork := by
  have hpop : ({ s with largeQueue := rest } : HeapState).pendingWork < s.pendingWork := by
    simp [HeapState.pendingWork, hqueue]
  unfold HeapState.drainLarge
  simp only
  cases hobject : s.large[index]? with
  | none =>
    refine ⟨h.popLarge hqueue fun object hsome ↦ ?_, hpop⟩
    rw [hobject] at hsome
    cases hsome
  | some object =>
    by_cases hgray : object.color = .gray
    · simp only [hgray, if_true]
      obtain ⟨htraced, hwork⟩ := (h.scanLarge hqueue hobject hgray).traceAll
      refine ⟨htraced, lt_of_le_of_lt hwork ?_⟩
      have hsum := sum_map_set (fun object ↦ if object.color = .white then 1 else 0) hobject
        { object with color := .black }
      simp only [hgray, reduceCtorEq, if_false] at hsum
      simp only [HeapState.pendingWork, hqueue, List.length_cons]
      omega
    · simp only [hgray, if_false]
      refine ⟨h.popLarge hqueue fun other hsome ↦ ?_, hpop⟩
      rw [hobject] at hsome
      cases hsome
      exact hgray

/-- A round of `drain_marks` keeps the invariant and lowers the work that is left. -/
theorem Marking.drainRound :
    match s.drainRound mem with
    | none => s.spanQueue = [] ∧ s.largeQueue = []
    | some s' => Marking s₀ mem roots [] s' ∧ s'.pendingWork < s.pendingWork := by
  unfold HeapState.drainRound
  cases hspans : s.spanQueue with
  | cons index rest => exact h.drainSpan hspans
  | nil =>
    cases hlarge : s.largeQueue with
    | cons index rest => exact h.drainLarge hlarge
    | nil => exact ⟨rfl, rfl⟩

/-- Enough rounds empty the queues. -/
theorem Marking.drainLoop {rounds : ℕ} (hrounds : s.pendingWork ≤ rounds) :
    Marking s₀ mem roots [] (HeapState.drainLoop mem rounds s) ∧
      (HeapState.drainLoop mem rounds s).spanQueue = [] ∧
      (HeapState.drainLoop mem rounds s).largeQueue = [] := by
  induction rounds generalizing s with
  | zero =>
    refine ⟨h, ?_, ?_⟩ <;>
    · apply List.length_eq_zero_iff.mp
      simp only [HeapState.pendingWork] at hrounds
      simp only [HeapState.drainLoop]
      omega
  | succ rounds ih =>
    have hround := h.drainRound
    rw [HeapState.drainLoop]
    cases hnext : s.drainRound mem with
    | none =>
      rw [hnext] at hround
      exact ⟨h, hround⟩
    | some s' =>
      rw [hnext] at hround
      exact ih hround.1 (by omega)

theorem Marking.drainMarks :
    Marking s₀ mem roots [] (s.drainMarks mem) ∧ (s.drainMarks mem).spanQueue = [] ∧
      (s.drainMarks mem).largeQueue = [] := h.drainLoop (le_refl _)

/-- With empty queues the marked locations are the reachable ones. -/
theorem Marking.marked_iff (hspans : s.spanQueue = [])
    (hlarge : s.largeQueue = []) (location : ObjectLocation) :
    s.marked location = true ↔ Reach s₀.classifyPointer (s₀.children mem) roots location := by
  apply h.tracing.marked_iff
  intro location hmarked
  cases location with
  | span index slot =>
    cases hspan : s.span? index with
    | none => simp [HeapState.marked, hspan] at hmarked
    | some span =>
      simp only [HeapState.marked, hspan, Option.map_some, Option.getD_some] at hmarked
      by_contra hscan
      simp only [HeapState.scannedAt, hspan, Option.map_some, Option.getD_some,
        Bool.not_eq_true] at hscan
      have hon := h.active_queued index span hspan slot hmarked hscan
      have hmem := h.span_queued index span hspan hon
      simp [hspans] at hmem
  | large index =>
    cases hobject : s.large[index]? with
    | none => simp [HeapState.marked, hobject] at hmarked
    | some object =>
      simp only [HeapState.marked, hobject, Option.map_some, Option.getD_some] at hmarked
      simp only [HeapState.scannedAt, hobject, Option.map_some, Option.getD_some, decide_eq_true_eq]
      cases hcolor : object.color with
      | white => simp [hcolor, MarkColor.isReached] at hmarked
      | gray =>
        have hmem := h.large_queued index object hobject hcolor
        simp [hlarge] at hmem
      | black => rfl

end Pon.Gc
