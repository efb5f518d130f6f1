import Pon.Scope.Scanning

/-!
# Closure linkage

A free variable of a scope is a cell or a free variable of the scope around it, and so on outwards to
the scope that owns the cell. Two things interrupt the chain: the implicit `__class__` cell belongs
to a class scope and has no symbol there, and a function that declares a name global still lets the
scopes inside it capture the name from further out.
-/

namespace Pon.Scope

open Ast
open Lower (LowerError)

/-! ## Classes of names -/

namespace ScopeInfo

def IsFree (info : ScopeInfo) (name : String) : Prop := ∃ slot, info.classOf name = some (.free slot)

def IsCell (info : ScopeInfo) (name : String) : Prop :=
  ∃ localSlot cellSlot, info.classOf name = some (.cell localSlot cellSlot)

/-- The scope declares the name with a `global` statement. -/
def DeclaresGlobal (info : ScopeInfo) (name : String) : Prop :=
  info.classOf name = some (.global true)

/-- The class scope owns the implicit `__class__` cell. -/
def OwnsClassCell (info : ScopeInfo) (name : String) : Prop :=
  name = "__class__" ∧ info.kind = .class_ ∧ info.needsClassClosure = true ∧ name ∈ info.cellVars

/-- The scope provides the cell of a name to the scopes inside it. -/
def Owns (info : ScopeInfo) (name : String) : Prop :=
  info.kind.isFunctionLike = true ∧ info.IsCell name ∨ info.OwnsClassCell name

end ScopeInfo

namespace ScopeBuilder

variable {builder : ScopeBuilder} {enclosing needed : List String} {name : String}
  {children : List ScopeInfo}

theorem mem_localNames :
    name ∈ builder.localNames ↔ builder.kind.isFunctionLike = true ∧ name ∈ builder.bound ∧
      name ∉ builder.globalDecl ∧ name ∉ builder.nonlocalDecl := by
  unfold localNames
  split <;> simp_all

/-- Slots are given to the local names of a list that have none yet. -/
theorem exists_slot_go (isParameter : Bool) (names : List String) (slots : List LocalSlotInfo) :
    (∃ slot ∈ assignLocalSlots.go builder isParameter names slots, slot.name = name) ↔
      (∃ slot ∈ slots, slot.name = name) ∨ name ∈ names ∧ name ∈ builder.localNames := by
  induction names generalizing slots with
  | nil => simp [assignLocalSlots.go]
  | cons head tail ih =>
    rw [assignLocalSlots.go]
    split
    · next fresh =>
      rw [ih]
      simp only [List.mem_append, List.mem_cons]
      grind
    · next present =>
      rw [ih]
      grind

theorem slotOf?_isSome :
    (slotOf? builder.assignLocalSlots name).isSome ↔ name ∈ builder.localNames := by
  have bound : name ∈ builder.localNames → name ∈ builder.bound := fun h ↦ (mem_localNames.mp h).2.1
  simp only [slotOf?, Option.isSome_map, List.find?_isSome, beq_iff_eq, assignLocalSlots]
  rw [exists_slot_go, exists_slot_go]
  simp only [List.not_mem_nil, false_and, exists_false, false_or]
  tauto

theorem mem_freeNames :
    name ∈ builder.freeNames enclosing needed ↔
      (name ∈ builder.nonlocalDecl ∨ name ∈ builder.usedFree enclosing ∨
        name ∈ builder.threadedFree enclosing needed) ∧
      ¬(builder.needsClassClosure needed = true ∧ name = "__class__") := by
  unfold freeNames
  split <;> simp_all [or_assoc]

theorem mem_usedFree :
    name ∈ builder.usedFree enclosing ↔ name ∈ builder.used ∧ name ∉ builder.localNames ∧
      name ∉ builder.globalDecl ∧
      ¬(builder.kind = .class_ ∧ name ∈ builder.bound ∧ name ∉ builder.nonlocalDecl) ∧
      name ∈ enclosing := by
  simp only [usedFree, List.mem_filter, decide_eq_true_eq]

theorem mem_cellNames :
    name ∈ builder.cellNames needed ↔ name ∈ needed ∧ name ∈ builder.localNames ∨
      builder.needsClassClosure needed = true ∧ name = "__class__" := by
  unfold cellNames
  split <;> simp_all [or_comm]

theorem needsClassClosure_iff :
    builder.needsClassClosure needed = true ↔ builder.kind = .class_ ∧ "__class__" ∈ needed := by
  simp [needsClassClosure]

theorem not_mem_localNames_of_free (h : name ∈ builder.freeNames enclosing needed) :
    name ∉ builder.localNames := by
  intro isLocal
  obtain ⟨functionLike, -, -, declared⟩ := mem_localNames.mp isLocal
  rcases (mem_freeNames.mp h).1 with nonlocal | used | threaded
  · exact declared nonlocal
  · exact (mem_usedFree.mp used).2.1 isLocal
  · unfold threadedFree at threaded
    split at threaded <;> simp_all [ScopeKind.isFunctionLike]

theorem mem_allNames_of_free (h : name ∈ builder.freeNames enclosing needed) :
    name ∈ builder.allNames needed := by
  obtain ⟨source, notClass⟩ := mem_freeNames.mp h
  have named : name ∈ builder.nonlocalDecl ∨ name ∈ builder.used ∨ name ∈ needed := by
    rcases source with nonlocal | used | threaded
    · exact .inl nonlocal
    · exact .inr (.inl (mem_usedFree.mp used).1)
    · refine .inr (.inr ?_)
      unfold threadedFree at threaded
      split at threaded <;> simp_all
  unfold allNames
  split
  · next removed =>
    simp only [Bool.and_eq_true] at removed
    simp only [List.mem_filter, mem_extendNames]
    grind
  · simp only [mem_extendNames]
    tauto

theorem mem_allNames_of_local (h : name ∈ builder.localNames) :
    name ∈ builder.allNames needed := by
  obtain ⟨functionLike, bound, -, -⟩ := mem_localNames.mp h
  have notClass : builder.needsClassClosure needed = false := by
    rw [← Bool.not_eq_true, needsClassClosure_iff]
    rintro ⟨kind, -⟩
    simp [kind, ScopeKind.isFunctionLike] at functionLike
  simp [allNames, notClass, bound]

theorem mem_allNames_of_global (h : name ∈ builder.globalDecl) :
    name ∈ builder.allNames needed := by
  unfold allNames
  split
  · next removed =>
    simp only [Bool.and_eq_true] at removed
    simp only [List.mem_filter, mem_extendNames]
    grind
  · simp [h]

theorem classOf_scopeInfo (mem : name ∈ builder.allNames needed) :
    (builder.scopeInfo enclosing needed children).classOf name =
      some (builder.classify enclosing needed name) := by
  have found : (builder.scopeInfo enclosing needed children).symbol name =
      some (builder.symbolInfo enclosing needed name) := by
    simp only [ScopeInfo.symbol, scopeInfo, List.find?_map]
    have same : (fun x : SymbolInfo ↦ x.name == name) ∘ builder.symbolInfo enclosing needed =
        fun x ↦ x == name := rfl
    rw [same]
    obtain ⟨other, isFound⟩ : ∃ other, (builder.allNames needed).find? (· == name) = some other :=
      Option.isSome_iff_exists.mp (List.find?_isSome.mpr ⟨name, mem, by simp⟩)
    obtain rfl : other = name := by simpa using List.find?_some isFound
    rw [isFound]
    rfl
  simp [ScopeInfo.classOf, found, symbolInfo]

theorem classOf_scopeInfo_none (mem : name ∉ builder.allNames needed) :
    (builder.scopeInfo enclosing needed children).classOf name = none := by
  have missing : (builder.scopeInfo enclosing needed children).symbol name = none := by
    simp only [ScopeInfo.symbol, scopeInfo, List.find?_eq_none, List.mem_map, beq_iff_eq]
    rintro _ ⟨other, present, rfl⟩ same
    exact mem (same ▸ present)
  simp [ScopeInfo.classOf, missing]

theorem classify_cell_iff :
    (∃ localSlot cellSlot, builder.classify enclosing needed name = .cell localSlot cellSlot) ↔
      name ∈ builder.localNames ∧ name ∈ builder.cellNames needed := by
  rw [← slotOf?_isSome]
  unfold classify
  cases slot : slotOf? builder.assignLocalSlots name with
  | none =>
    simp only [Option.isSome_none, Bool.false_eq_true, false_and, iff_false, not_exists]
    cases (builder.freeNames enclosing needed).idxOf? name <;> grind
  | some localSlot =>
    cases index : (builder.cellNames needed).idxOf? name with
    | none => simp [List.idxOf?_eq_none_iff.mp index]
    | some cellSlot =>
      have mem : name ∈ builder.cellNames needed := by
        by_contra missing
        simp [List.idxOf?_eq_none_iff.mpr missing] at index
      simp [mem]

theorem classify_free_iff :
    (∃ slot, builder.classify enclosing needed name = .free slot) ↔
      name ∈ builder.freeNames enclosing needed := by
  have notLocal (free : name ∈ builder.freeNames enclosing needed) : name ∉ builder.localNames :=
    not_mem_localNames_of_free free
  rw [← slotOf?_isSome] at notLocal
  unfold classify
  cases slot : slotOf? builder.assignLocalSlots name with
  | some localSlot =>
    rw [slot] at notLocal
    cases (builder.cellNames needed).idxOf? name <;> simp_all
  | none =>
    cases index : (builder.freeNames enclosing needed).idxOf? name with
    | none =>
      have missing := List.idxOf?_eq_none_iff.mp index
      simp only [missing, iff_false, not_exists]
      grind
    | some freeSlot =>
      have mem : name ∈ builder.freeNames enclosing needed := by
        by_contra missing
        simp [List.idxOf?_eq_none_iff.mpr missing] at index
      simp [mem]

theorem isFree_scopeInfo :
    (builder.scopeInfo enclosing needed children).IsFree name ↔
      name ∈ builder.freeNames enclosing needed := by
  unfold ScopeInfo.IsFree
  by_cases mem : name ∈ builder.allNames needed
  · simp only [classOf_scopeInfo mem, Option.some.injEq]
    exact classify_free_iff
  · have notFree : name ∉ builder.freeNames enclosing needed := fun h ↦ mem (mem_allNames_of_free h)
    simp [classOf_scopeInfo_none mem, notFree]

theorem isCell_scopeInfo :
    (builder.scopeInfo enclosing needed children).IsCell name ↔
      name ∈ builder.localNames ∧ name ∈ needed := by
  have cells : name ∈ builder.localNames ∧ name ∈ builder.cellNames needed ↔
      name ∈ builder.localNames ∧ name ∈ needed := by
    refine and_congr_right fun isLocal ↦ ?_
    rw [mem_cellNames, needsClassClosure_iff]
    have functionLike := (mem_localNames.mp isLocal).1
    refine ⟨?_, fun mem ↦ .inl ⟨mem, isLocal⟩⟩
    rintro (⟨mem, -⟩ | ⟨⟨kind, -⟩, -⟩)
    · exact mem
    · simp [kind, ScopeKind.isFunctionLike] at functionLike
  unfold ScopeInfo.IsCell
  by_cases mem : name ∈ builder.allNames needed
  · simp only [classOf_scopeInfo mem, Option.some.injEq]
    exact classify_cell_iff.trans cells
  · have notLocal : name ∉ builder.localNames := fun h ↦ mem (mem_allNames_of_local h)
    simp [classOf_scopeInfo_none mem, notLocal]

/-- A name that a scope declares global is classified so, unless it is free there. -/
theorem declaresGlobal_scopeInfo (declared : name ∈ builder.globalDecl)
    (notFree : name ∉ builder.freeNames enclosing needed) :
    (builder.scopeInfo enclosing needed children).DeclaresGlobal name := by
  have notLocal : name ∉ builder.localNames := fun h ↦ (mem_localNames.mp h).2.2.1 declared
  unfold ScopeInfo.DeclaresGlobal
  rw [classOf_scopeInfo (mem_allNames_of_global declared)]
  have slot : slotOf? builder.assignLocalSlots name = none := by
    rw [← Option.not_isSome_iff_eq_none, slotOf?_isSome]
    exact notLocal
  simp only [classify, slot, List.idxOf?_eq_none_iff.mpr notFree, if_pos declared]

end ScopeBuilder

/-! ## Finalized scopes -/

theorem finalizeScopes_ok {enclosing : List String} :
    ∀ {builders : List ScopeBuilder} {infos : List ScopeInfo},
      finalizeScopes builders enclosing = .ok infos →
      ∀ info ∈ infos, ∃ builder ∈ builders, finalizeScope builder enclosing = .ok info
  | [], _, h, info, mem => by
    cases h
    exact nomatch mem
  | builder :: rest, _, h, info, mem => by
    obtain ⟨head, first, h⟩ := Effect.ok_of_bind h
    obtain ⟨tail, others, h⟩ := Effect.ok_of_bind h
    cases h
    rcases List.mem_cons.mp mem with rfl | old
    · exact ⟨builder, List.mem_cons_self, first⟩
    · obtain ⟨other, present, finalized⟩ := finalizeScopes_ok others info old
      exact ⟨other, List.mem_cons_of_mem _ present, finalized⟩

theorem finalizeScope_eq (builder : ScopeBuilder) (enclosing : List String) :
    finalizeScope builder enclosing = (do
      builder.validateNonlocalBindings enclosing
      let annotate ← finalizeOption builder.annotate (builder.childEnclosing enclosing)
      let children ← finalizeScopes builder.children (builder.childEnclosing enclosing)
      let children := annotate.toList ++ children
      .ok (builder.scopeInfo enclosing (namesNeededByChildren children) children)) := by
  cases builder
  rfl

theorem finalizeScope_ok {builder : ScopeBuilder} {enclosing : List String} {info : ScopeInfo}
    (h : finalizeScope builder enclosing = .ok info) :
    builder.validateNonlocalBindings enclosing = .ok () ∧
    ∃ children, info = builder.scopeInfo enclosing (namesNeededByChildren children) children ∧
      ∀ child ∈ children, ∃ inner ∈ builder.inner,
        finalizeScope inner (builder.childEnclosing enclosing) = .ok child := by
  rw [finalizeScope_eq] at h
  obtain ⟨⟨⟩, valid, h⟩ := Effect.ok_of_bind h
  obtain ⟨annotate, deferred, h⟩ := Effect.ok_of_bind h
  obtain ⟨children, others, h⟩ := Effect.ok_of_bind h
  cases h
  refine ⟨valid, annotate.toList ++ children, rfl, fun child mem ↦ ?_⟩
  rcases List.mem_append.mp mem with isAnnotate | isChild
  · cases present : builder.annotate with
    | none =>
      rw [present] at deferred
      cases deferred
      exact nomatch isAnnotate
    | some inner =>
      rw [present] at deferred
      obtain ⟨only, finalized, same⟩ := Effect.ok_of_bind deferred
      cases same
      obtain rfl : child = only := by simpa using isAnnotate
      exact ⟨inner, by simp [ScopeBuilder.inner, present], finalized⟩
  · obtain ⟨inner, present, finalized⟩ := finalizeScopes_ok others child isChild
    exact ⟨inner, List.mem_append_right _ present, finalized⟩

namespace ScopeBuilder

variable {builder inner : ScopeBuilder} {enclosing : List String} {name : String}

theorem validateNonlocalBindings_ok (h : builder.validateNonlocalBindings enclosing = .ok ()) :
    ∀ name ∈ builder.nonlocalDecl, builder.kind ≠ .module ∧ name ∈ enclosing := by
  suffices go : ∀ names, validateNonlocalBindings.go builder enclosing names = .ok () →
      ∀ name ∈ names, builder.kind ≠ .module ∧ name ∈ enclosing from go _ h
  intro names
  induction names with
  | nil => simp
  | cons head tail ih =>
    intro valid name mem
    rw [validateNonlocalBindings.go] at valid
    split_ifs at valid with module bound
    rcases List.mem_cons.mp mem with rfl | old
    · exact ⟨module, bound⟩
    · exact ih valid name old

theorem mem_childEnclosing (h : name ∈ builder.childEnclosing enclosing) :
    name ∈ enclosing ∨ name ∈ builder.localNames ∨ builder.kind = .class_ ∧ name = "__class__" := by
  unfold childEnclosing at h
  split_ifs at h with functionLike isClass
  · rcases mem_extendNames.mp h with outer | own
    · exact .inl outer
    · exact .inr (.inl own)
  · rcases mem_insertName.mp h with rfl | outer
    · exact .inr (.inr ⟨isClass, rfl⟩)
    · exact .inl outer
  · exact .inl h

theorem sizeOf_inner_lt (mem : inner ∈ builder.inner) : sizeOf inner < sizeOf builder := by
  cases builder with
  | mk kind name span params formalParams positionalOnly hasVararg keywordOnly hasKwarg bound used
      globalDecl nonlocalDecl children isGenerator isAsync activeTypeParams annotate =>
    rcases List.mem_append.mp mem with isAnnotate | isChild
    · obtain rfl : annotate = some inner := by simpa using isAnnotate
      simp
      omega
    · have smaller : sizeOf inner < sizeOf children := List.sizeOf_lt_of_mem isChild
      simp
      omega

end ScopeBuilder

/-- A scope takes its free variables from the enclosing functions. -/
theorem freeVars_subset {enclosing : List String} {name : String} (builder : ScopeBuilder)
    {info : ScopeInfo} (h : finalizeScope builder enclosing = .ok info)
    (free : name ∈ info.freeVars) : name ∈ enclosing := by
  obtain ⟨valid, children, rfl, finalized⟩ := finalizeScope_ok h
  rcases (ScopeBuilder.mem_freeNames.mp free).1 with nonlocal | used | threaded
  · exact (ScopeBuilder.validateNonlocalBindings_ok valid name nonlocal).2
  · exact (ScopeBuilder.mem_usedFree.mp used).2.2.2.2
  · have captured (needed : name ∈ namesNeededByChildren children) :
        name ∈ builder.childEnclosing enclosing := by
      obtain ⟨child, mem, free⟩ := mem_namesNeededByChildren.mp needed
      obtain ⟨inner, present, scope⟩ := finalized child mem
      have := ScopeBuilder.sizeOf_inner_lt present
      exact freeVars_subset inner scope free
    unfold ScopeBuilder.threadedFree at threaded
    split at threaded
    iterate 2
      · next kind =>
        simp only [List.mem_filter, decide_eq_true_eq] at threaded
        rcases ScopeBuilder.mem_childEnclosing (captured threaded.1) with outer | own | ⟨isClass, -⟩
        · exact outer
        · exact absurd own threaded.2.1
        · simp [kind] at isClass
    · simpa using (List.mem_filter.mp threaded).2
    · exact nomatch threaded
termination_by sizeOf builder

/-! ## Linkage -/

/-- A scope of the tree with the scopes around it, from the inside out. -/
inductive Chain (root : ScopeInfo) : List ScopeInfo → Prop
  | root : Chain root [root]
  | child {parent child : ScopeInfo} {outer : List ScopeInfo} :
      Chain root (parent :: outer) → child ∈ parent.children → Chain root (child :: parent :: outer)

/-- Every closure variable of the tree is linked to a cell. -/
structure Linked (root : ScopeInfo) : Prop where
  /-- The module scope has no free variable. -/
  module : ∀ name, ¬root.IsFree name
  /-- A free variable is a cell or a free variable of the parent, or the parent owns it as the
  implicit class cell; of a function that declares it global nothing is said. -/
  parent : ∀ {child parent outer name}, Chain root (child :: parent :: outer) → child.IsFree name →
    ¬(parent.kind.isFunctionLike = true ∧ parent.DeclaresGlobal name) →
    parent.IsCell name ∨ parent.IsFree name ∨ parent.OwnsClassCell name
  /-- The parents of a free variable lead to its owner, as long as they meet no function that
  declares it global. -/
  owner : ∀ {scope outer name}, Chain root (scope :: outer) → scope.IsFree name →
    (∀ threaded parent rest, outer = threaded ++ parent :: rest →
      (∀ other ∈ threaded, other.IsFree name) →
      ¬(parent.kind.isFunctionLike = true ∧ parent.DeclaresGlobal name)) →
    ∃ threaded owner rest, outer = threaded ++ owner :: rest ∧
      (∀ other ∈ threaded, other.IsFree name) ∧ owner.Owns name
  /-- A cell is a free variable of an inner scope. -/
  cell : ∀ {scope outer name}, Chain root (scope :: outer) → scope.IsCell name →
    scope.kind.isFunctionLike = true ∧ ∃ child ∈ scope.children, child.IsFree name

section Linkage

variable {builder : ScopeBuilder} {enclosing : List String} {info child : ScopeInfo} {name : String}

theorem isFree_iff_mem_freeVars (h : finalizeScope builder enclosing = .ok info) :
    info.IsFree name ↔ name ∈ info.freeVars := by
  obtain ⟨-, children, rfl, -⟩ := finalizeScope_ok h
  exact ScopeBuilder.isFree_scopeInfo

/-- How a free variable of an inner scope is classified one scope further out. -/
theorem free_in_parent (h : finalizeScope builder enclosing = .ok info)
    (top : builder.kind = .module → enclosing = []) (mem : child ∈ info.children)
    (free : child.IsFree name) :
    info.kind.isFunctionLike = true ∧ info.IsCell name ∨ info.IsFree name ∨
      info.OwnsClassCell name ∨ info.kind.isFunctionLike = true ∧ info.DeclaresGlobal name := by
  obtain ⟨-, children, rfl, finalized⟩ := finalizeScope_ok h
  obtain ⟨inner, -, scope⟩ := finalized child mem
  have freeVar : name ∈ child.freeVars := (isFree_iff_mem_freeVars scope).mp free
  have needed : name ∈ namesNeededByChildren children :=
    mem_namesNeededByChildren.mpr ⟨child, mem, freeVar⟩
  have enclosed := freeVars_subset inner scope freeVar
  have threads (threaded : name ∈ builder.threadedFree enclosing (namesNeededByChildren children))
      (notClass : ¬(builder.needsClassClosure (namesNeededByChildren children) = true ∧
        name = "__class__")) :
      name ∈ builder.freeNames enclosing (namesNeededByChildren children) :=
    ScopeBuilder.mem_freeNames.mpr ⟨.inr (.inr threaded), notClass⟩
  by_cases functionLike : builder.kind.isFunctionLike = true
  · have notClass : ¬(builder.needsClassClosure (namesNeededByChildren children) = true ∧
        name = "__class__") := by
      rw [ScopeBuilder.needsClassClosure_iff]
      rintro ⟨⟨kind, -⟩, -⟩
      simp [kind, ScopeKind.isFunctionLike] at functionLike
    by_cases isLocal : name ∈ builder.localNames
    · exact .inl ⟨functionLike, ScopeBuilder.isCell_scopeInfo.mpr ⟨isLocal, needed⟩⟩
    by_cases isFree : name ∈ builder.freeNames enclosing (namesNeededByChildren children)
    · exact .inr (.inl (ScopeBuilder.isFree_scopeInfo.mpr isFree))
    -- a captured name that is neither bound nor threaded is declared global
    refine .inr (.inr (.inr ⟨functionLike, ScopeBuilder.declaresGlobal_scopeInfo ?_ isFree⟩))
    by_contra notGlobal
    refine isFree (threads ?_ notClass)
    unfold ScopeBuilder.threadedFree
    split <;> simp_all [ScopeKind.isFunctionLike]
  · by_cases isClass : builder.kind = .class_
    · by_cases implicit : name = "__class__"
      · subst implicit
        have closure := ScopeBuilder.needsClassClosure_iff.mpr ⟨isClass, needed⟩
        exact .inr (.inr (.inl ⟨rfl, isClass, closure,
          ScopeBuilder.mem_cellNames.mpr (.inr ⟨closure, rfl⟩)⟩))
      · refine .inr (.inl (ScopeBuilder.isFree_scopeInfo.mpr (threads ?_ (implicit ·.2))))
        have outer : name ∈ enclosing := by
          rcases ScopeBuilder.mem_childEnclosing enclosed with outer | own | ⟨-, same⟩
          · exact outer
          · exact absurd (ScopeBuilder.mem_localNames.mp own).1 functionLike
          · exact absurd same implicit
        simp [ScopeBuilder.threadedFree, isClass, needed, outer]
    · -- the names that enclose a child of the module are none
      have module : builder.kind = .module := by
        cases kind : builder.kind <;> simp_all [ScopeKind.isFunctionLike]
      simp [ScopeBuilder.childEnclosing, top module, module, ScopeKind.isFunctionLike] at enclosed

variable {root : ScopeInfo} {start : ScopeBuilder} {outer : List ScopeInfo}

/-- Every scope of the tree comes from a builder; only the root is a module. -/
theorem Chain.finalized {scopes : List ScopeInfo} (nested : start.Nested)
    (h : finalizeScope start [] = .ok root) (chain : Chain root scopes) :
    ∃ info outer builder enclosing, scopes = info :: outer ∧ builder.Nested ∧
      finalizeScope builder enclosing = .ok info ∧ (builder.kind = .module → enclosing = []) := by
  induction chain with
  | root => exact ⟨root, [], start, [], rfl, nested, h, fun _ ↦ rfl⟩
  | child _ mem ih =>
    obtain ⟨info, rest, builder, enclosing, same, nested, scope, -⟩ := ih
    cases same
    obtain ⟨-, children, rfl, finalized⟩ := finalizeScope_ok scope
    obtain ⟨inner, present, finalized⟩ := finalized _ mem
    obtain ⟨kinds, nested⟩ := nested
    exact ⟨_, _, inner, _, rfl, nested inner present, finalized,
      fun kind ↦ absurd kind (kinds inner present)⟩

theorem Chain.free_in_parent {parent : ScopeInfo} (nested : start.Nested)
    (h : finalizeScope start [] = .ok root) (chain : Chain root (child :: parent :: outer))
    (free : child.IsFree name) :
    parent.kind.isFunctionLike = true ∧ parent.IsCell name ∨ parent.IsFree name ∨
      parent.OwnsClassCell name ∨
      parent.kind.isFunctionLike = true ∧ parent.DeclaresGlobal name := by
  cases chain with
  | child around mem =>
    obtain ⟨info, rest, builder, enclosing, same, -, scope, top⟩ := around.finalized nested h
    cases same
    exact Pon.Scope.free_in_parent scope top mem free

theorem root_not_free (h : finalizeScope start [] = .ok root) : ¬root.IsFree name := fun free ↦
  nomatch freeVars_subset start h ((isFree_iff_mem_freeVars h).mp free)

/-- The walk from a free variable through the parents ends at an owner. -/
theorem Chain.owner (nested : start.Nested) (h : finalizeScope start [] = .ok root) :
    ∀ {scope : ScopeInfo} {outer : List ScopeInfo}, Chain root (scope :: outer) → scope.IsFree name →
      (∀ threaded parent rest, outer = threaded ++ parent :: rest →
        (∀ other ∈ threaded, other.IsFree name) →
        ¬(parent.kind.isFunctionLike = true ∧ parent.DeclaresGlobal name)) →
      ∃ threaded owner rest, outer = threaded ++ owner :: rest ∧
        (∀ other ∈ threaded, other.IsFree name) ∧ owner.Owns name
  | _, [], chain, free, _ => by
    cases chain
    exact absurd free (root_not_free h)
  | _, parent :: outer, chain, free, uncut => by
    rcases chain.free_in_parent nested h free with cell | free | implicit | cut
    · exact ⟨[], parent, outer, rfl, by simp, .inl cell⟩
    · have around : Chain root (parent :: outer) := by
        cases chain with
        | child around _ => exact around
      obtain ⟨threaded, owner, rest, rfl, frees, owns⟩ := Chain.owner nested h around free
        fun threaded other rest same frees ↦ uncut (parent :: threaded) other rest (by simp [same])
          (by simpa using ⟨free, frees⟩)
      exact ⟨parent :: threaded, owner, rest, rfl, by simpa using ⟨free, frees⟩, owns⟩
    · exact ⟨[], parent, outer, rfl, by simp, .inr implicit⟩
    · exact absurd cut (uncut [] parent outer rfl (by simp))

theorem Chain.cell {scope : ScopeInfo} (nested : start.Nested)
    (h : finalizeScope start [] = .ok root) (chain : Chain root (scope :: outer))
    (cell : scope.IsCell name) :
    scope.kind.isFunctionLike = true ∧ ∃ child ∈ scope.children, child.IsFree name := by
  obtain ⟨info, rest, builder, enclosing, same, -, finalized, -⟩ := chain.finalized nested h
  cases same
  obtain ⟨-, children, rfl, inner⟩ := finalizeScope_ok finalized
  obtain ⟨isLocal, needed⟩ := ScopeBuilder.isCell_scopeInfo.mp cell
  obtain ⟨child, mem, free⟩ := mem_namesNeededByChildren.mp needed
  obtain ⟨_, -, scope⟩ := inner child mem
  exact ⟨(ScopeBuilder.mem_localNames.mp isLocal).1, child, mem,
    (isFree_iff_mem_freeVars scope).mpr free⟩

end Linkage

/-- Scope analysis links every closure variable of an accepted module. -/
theorem analyzeModule_linked {body : List Stmt} {root : ScopeInfo}
    (h : analyzeModule body = .ok root) : Linked root := by
  obtain ⟨start, scanned, finalized⟩ := Effect.ok_of_bind h
  have nested : start.Nested := (scanBody_scans body scanned (.of_no_inner rfl)).1
  exact {
    module := fun _ ↦ root_not_free finalized
    parent := by
      intro child parent outer name chain free uncut
      rcases chain.free_in_parent nested finalized free with cell | free | implicit | cut
      · exact .inl cell.2
      · exact .inr (.inl free)
      · exact .inr (.inr implicit)
      · exact absurd cut uncut
    owner := Chain.owner nested finalized
    cell := Chain.cell nested finalized }

/-! ## A method that uses the class cell -/

/-- The scopes on the way to the inner scope at a path of child numbers, from the inside out. -/
def ScopeInfo.descend (scope : ScopeInfo) (outer : List ScopeInfo) : List ℕ → Option (List ScopeInfo)
  | [] => some (scope :: outer)
  | number :: path =>
      match scope.children[number]? with
      | some child => child.descend (scope :: outer) path
      | none => none

theorem Chain.descend {root : ScopeInfo} : ∀ {path : List ℕ} {scope : ScopeInfo}
    {outer scopes : List ScopeInfo}, Chain root (scope :: outer) →
    scope.descend outer path = some scopes → Chain root scopes
  | [], _, _, _, chain, h => Option.some.inj h ▸ chain
  | number :: path, scope, outer, _, chain, h => by
    rw [ScopeInfo.descend] at h
    split at h
    · next child found => exact Chain.descend (.child chain (List.mem_of_getElem? found)) h
    · cases h

/-- The scope that a path leads to, and the scopes around it. -/
theorem exists_chain (body : List Stmt) (path : List ℕ) (p : ScopeInfo → List ScopeInfo → Bool)
    (h : ((analyzeModule body).toOption.bind (·.descend [] path)).any
      (fun scopes ↦ scopes.head?.any (p · scopes.tail)) = true) :
    ∃ root info outer, analyzeModule body = .ok root ∧ Chain root (info :: outer) ∧ p info outer = true := by
  cases analyzed : analyzeModule body with
  | error e => simp [analyzed, Except.toOption] at h
  | ok root =>
    simp only [analyzed, Except.toOption, Option.bind_some] at h
    obtain ⟨scopes, found, holds⟩ := (Option.any_eq_true _ _).mp h
    cases scopes with
    | nil => cases holds
    | cons info outer => exact ⟨root, info, outer, rfl, Chain.descend .root found, holds⟩

/-- `class C: def m(self): return __class__` -/
def classCellModule : List Stmt :=
  [.classDef ⟨0, 43⟩ [] "C" [] [] []
    [.functionDef ⟨10, 43⟩ false [] "m" [] (.mk [] [.mk (.mk "self" none) none] none [] none) none
      [.ret (some (.name "__class__" .load))]]]

/-- The innermost scope has `__class__` as a free variable that its parent does not have. -/
def classCellMissing : List ScopeInfo → Bool
  | child :: parent :: _ =>
      child.classOf "__class__" = some (.free 0) && (parent.classOf "__class__").isNone
  | _ => false

/-- The method uses `__class__` as a free variable, and its parent, the class, has no symbol of that
name. -/
theorem class_cell_not_in_parent :
    ¬∀ body root, analyzeModule body = .ok root → ∀ child parent outer name,
      Chain root (child :: parent :: outer) → child.IsFree name →
      parent.IsCell name ∨ parent.IsFree name := by
  intro linked
  obtain ⟨root, child, outer, analyzed, chain, holds⟩ :=
    exists_chain classCellModule [0, 0] (fun child outer ↦ classCellMissing (child :: outer)) (by decide)
  cases outer with
  | nil => cases holds
  | cons parent outer =>
    simp only [classCellMissing, Bool.and_eq_true, decide_eq_true_eq, Option.isNone_iff_eq_none] at holds
    rcases linked _ root analyzed child parent outer "__class__" chain ⟨0, holds.1⟩ with cell | free
    · obtain ⟨_, _, same⟩ := cell
      simp [holds.2] at same
    · obtain ⟨_, same⟩ := free
      simp [holds.2] at same

theorem analyzeModule_linked_class_cell :
    ∃ root, analyzeModule classCellModule = .ok root ∧ Linked root :=
  ⟨_, rfl, @analyzeModule_linked classCellModule _ rfl⟩

end Pon.Scope
