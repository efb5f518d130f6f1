import Pon.Scope.Recording
import Pon.Scope.Storage

/-!
# Name resolution

Scope analysis resolves names as Python does, but for some entangled uses of a name: a name that is
captured through a scope that declares it global, a class body that uses the `__class__` of an
enclosing class while its own methods use its own, an annotation that depends on the names of a class
body, and an annotation that uses the name `format`.
-/

namespace Pon.Scope

open Ast
open Lower (LowerError)
open Python (Block BlockKind Event Resolution Throughout PlainUntil NonlocalsFound outward)

/-! ## Agreement -/

/-- What the accesses to a name of a scope refer to. In a class body, a name that the body binds stays
in the class namespace. -/
def ScopeInfo.resolution (info : ScopeInfo) (name : String) : Option Resolution :=
  (info.symbol name).map fun symbol ↦
    match symbol.nameClass with
    | .local _ | .cell _ _ => .local
    | .free _ =>
        if info.isClass && symbol.isBound && !symbol.isNonlocal then .namespace else .free
    | .global explicit => if info.isClass && symbol.isBound && !explicit then .namespace else .global
    | .builtin => if info.isClass && symbol.isBound then .namespace else .global

/-- The scope tree has a scope for every block, and gives every name that occurs in a block its
resolution. -/
inductive Agrees : ScopeInfo → Block → List Block → Prop
  | intro {info : ScopeInfo} {block : Block} {outer : List Block}
      (kind : info.kind = block.kind.scopeKind) (name : info.name = block.name)
      (span : info.span = block.span)
      (names : ∀ name ∈ block.occurrences, info.resolution name = some (block.resolve outer name))
      (length : info.children.length = block.children.length)
      (inner : ∀ child ∈ info.children.zip block.children, Agrees child.1 child.2 (block :: outer)) :
      Agrees info block outer

/-- Scope analysis accepts a module exactly when the rules of the language do, and then resolves all
names as the language does. -/
def FollowsPython (body : List Stmt) : Prop :=
  match analyzeModule body with
  | .ok root => Python.Accepts body ∧ Agrees root (Python.moduleBlock body) []
  | .error _ => ¬Python.Accepts body

/-! ## Entangled names -/

/-- A name that a block leaves to the blocks around it, for itself or for a block inside it. -/
inductive Asks : Block → String → Prop
  | nonlocal {block : Block} {name : String} (declared : name ∈ block.nonlocals) : Asks block name
  | used {block : Block} {name : String} (used : name ∈ block.used) (unbound : name ∉ block.bound)
      (undeclared : name ∉ block.globals) : Asks block name
  | inner {block child : Block} {name : String} (mem : child ∈ block.children)
      (asks : Asks child name)
      (passes : if block.kind = .class_ then name ≠ "__class__"
        else name ∉ block.bound ∧ name ∉ block.globals) : Asks block name

/-- Some function around binds the name, or some class provides it as its `__class__`; the functions
for annotations bind `format`. Global declarations in between do not matter. -/
def Capturable (name : String) (outer : List Block) : Prop :=
  ∃ block ∈ outer,
    block.kind.isFunctionLike = true ∧
      (name ∈ block.bound ∨ block.kind = .annotations ∧ name = "format") ∧
      name ∉ block.globals ∧ name ∉ block.nonlocals ∨
    block.kind = .class_ ∧ name = "__class__"

/-- The nonlocal names of the block are found. -/
def Found (block : Block) (outer : List Block) : Prop :=
  ∀ name ∈ block.nonlocals, outward name false outer = .free

/-- The inner block is resolved: the nonlocal names of the block and of the inner blocks before it are
found. -/
def Visited (block : Block) (outer : List Block) (child : Block) : Prop :=
  Found block outer ∧ ∃ before after, block.children = before ++ child :: after ∧
    ∀ sibling ∈ before, NonlocalsFound sibling (block :: outer)

theorem Visited.mem {block child : Block} {outer : List Block} (visited : Visited block outer child) :
    child ∈ block.children := by
  obtain ⟨-, before, after, split, -⟩ := visited
  exact split ▸ List.mem_append_right before List.mem_cons_self

/-- No name of the block, or of a block inside it, is entangled, up to the first nonlocal name that is not
found. -/
inductive Untangled : Block → List Block → Prop
  | intro {block : Block} {outer : List Block}
      /- No block inside asks for a name that this block declares global and a function further out
      binds. -/
      (globals : ∀ name ∈ block.globals, Capturable name outer →
        ∀ child, Visited block outer child → ¬Asks child name)
      /- A class body that uses the `__class__` of an enclosing class has no method that uses its
      own. -/
      (classCell : block.kind = .class_ → Capturable "__class__" outer →
        "__class__" ∈ block.nonlocals ∨ "__class__" ∈ block.used ∧ "__class__" ∉ block.bound ∧
          "__class__" ∉ block.globals →
        ∀ child, Visited block outer child → ¬Asks child "__class__")
      /- The names used in an annotation mean the same without the names of a class body. -/
      (annotations : ∀ child, Visited block outer child → ∀ name ∈ child.used, name ∉ child.bound →
        name ∉ child.globals →
        outward name child.kind.seesClass (block :: outer) = outward name false (block :: outer))
      (format : block.kind = .annotations → ¬Asks block "format")
      (inner : ∀ child, Visited block outer child → Untangled child (block :: outer)) :
      Untangled block outer

variable {scope : ScopeBuilder} {block child : Block} {outer : List Block}
  {enclosing needed : List String} {name : String} {children : List ScopeInfo}

/-! ## The resolution of a builder -/

namespace ScopeBuilder

/-- A name has a symbol when it occurs in the scope. -/
theorem mem_allNames (h : name ∈ scope.used ∨ name ∈ scope.bound ∨ name ∈ scope.globalDecl ∨
    name ∈ scope.nonlocalDecl) : name ∈ scope.allNames needed := by
  unfold allNames
  split
  · next removed =>
    simp only [Bool.and_eq_true] at removed
    simp only [List.mem_filter, mem_extendNames]
    grind
  · simp only [mem_extendNames]
    tauto

/-- The resolution of a name in terms of the builder. -/
def resolution (scope : ScopeBuilder) (enclosing needed : List String) (name : String) :
    Resolution :=
  let inNamespace := scope.kind = .class_ ∧ name ∈ scope.bound
  if name ∈ scope.localNames then .local
  else if name ∈ scope.freeNames enclosing needed then
    if inNamespace ∧ name ∉ scope.nonlocalDecl then .namespace else .free
  else if name ∈ scope.globalDecl then .global
  else if inNamespace then .namespace
  else .global

theorem resolution_scopeInfo (mem : name ∈ scope.allNames needed) :
    (scope.scopeInfo enclosing needed children).resolution name =
      some (scope.resolution enclosing needed name) := by
  obtain ⟨symbol, found, -⟩ := Option.map_eq_some_iff.mp
    (@classOf_scopeInfo scope enclosing needed name children mem)
  rw [ScopeInfo.resolution, found, symbol_scopeInfo found]
  have isClass : (scope.scopeInfo enclosing needed children).isClass = decide (scope.kind = .class_) :=
    rfl
  simp only [Option.map_some, symbolInfo, isClass, resolution, classify]
  cases slot : slotOf? scope.assignLocalSlots name with
  | some localSlot =>
    have isLocal : name ∈ scope.localNames := slotOf?_isSome.mp (by simp [slot])
    cases (scope.cellNames needed).idxOf? name <;> simp [isLocal]
  | none =>
    have notLocal : name ∉ scope.localNames := fun h ↦ by simpa [slot] using slotOf?_isSome.mpr h
    cases index : (scope.freeNames enclosing needed).idxOf? name with
    | some freeSlot =>
      have isFree : name ∈ scope.freeNames enclosing needed := by
        by_contra missing
        simp [List.idxOf?_eq_none_iff.mpr missing] at index
      simp [notLocal, isFree]
    | none =>
      have notFree : name ∉ scope.freeNames enclosing needed := List.idxOf?_eq_none_iff.mp index
      split_ifs <;> simp_all

end ScopeBuilder

/-! ## Declarations of a block -/

/-- A legal block does not declare a name both global and nonlocal. -/
theorem not_global_and_nonlocal (legal : Throughout Event.Legal block) (isGlobal : name ∈ block.globals) :
    name ∉ block.nonlocals := by
  intro isNonlocal
  obtain ⟨here, -⟩ := legal
  have global_mem {events : List Event} {event : Event} (mem : event ∈ events)
      (declares : name ∈ event.globals) : name ∈ events.flatMap Event.globals :=
    List.mem_flatMap.mpr ⟨event, mem, declares⟩
  obtain ⟨event, mem, declares⟩ := List.mem_flatMap.mp isGlobal
  obtain rfl : event = .global name := by
    cases event <;> simp_all [Event.globals]
  obtain ⟨event, mem', declares'⟩ := List.mem_flatMap.mp isNonlocal
  obtain rfl : event = .nonlocal name := by
    cases event <;> simp_all [Event.nonlocals]
  obtain ⟨before, after, split⟩ := List.append_of_mem mem
  rw [split] at mem'
  rcases List.mem_append.mp mem' with earlier | later
  · exact (here before _ after split).2 (List.mem_flatMap.mpr ⟨_, earlier, declares'⟩)
  · obtain ⟨middle, rest, split'⟩ := List.append_of_mem (List.mem_of_ne_of_mem (by simp) later)
    have illegal := (here (before ++ .global name :: middle) (.nonlocal name) rest
      (by simp [split, split'])).2
    exact illegal (global_mem (List.mem_append_right _ List.mem_cons_self) declares)

/-! ## Names from outside -/

theorem outward_plain (name : String) (outer : List Block) :
    outward name false outer = .free ∨ outward name false outer = .global := by
  induction outer with
  | nil => exact .inr rfl
  | cons block outer ih =>
    unfold outward
    split <;> grind

/-- The enclosing names that scope analysis keeps, in terms of the blocks around. -/
structure Around (scope : ScopeBuilder) (block : Block) (outer : List Block)
    (enclosing : List String) : Prop where
  notTypeParams : block.kind ≠ .typeParams
  module : block.kind = .module → enclosing = []
  /-- They are right about the names that the block leaves open. -/
  asks : ∀ name, Asks block name → (name ∈ enclosing ↔ outward name false outer = .free)
  capturable : ∀ name ∈ enclosing, Capturable name outer
  /-- The names that the block itself uses do not depend on a class body around it. -/
  used : ∀ name ∈ block.used, name ∉ block.bound → name ∉ block.globals →
    outward name block.kind.seesClass outer = outward name false outer

section Around

section

variable (records : Records scope block)
include records

theorem Records.isFunctionLike_iff :
    scope.kind.isFunctionLike = true ↔ block.kind ≠ .module ∧ block.kind ≠ .class_ := by
  rw [records.names.kind]
  cases block.kind <;> simp [Python.BlockKind.scopeKind, ScopeKind.isFunctionLike]

theorem Records.isClass_iff :
    scope.kind = .class_ ↔ block.kind = .class_ := by
  rw [records.names.kind]
  cases block.kind <;> simp [Python.BlockKind.scopeKind]

theorem Records.mem_localNames_iff :
    name ∈ scope.localNames ↔ (block.kind ≠ .module ∧ block.kind ≠ .class_) ∧
      (name ∈ block.bound ∨ block.kind = .annotations ∧ name = "format") ∧
      name ∉ block.globals ∧ name ∉ block.nonlocals := by
  rw [ScopeBuilder.mem_localNames, records.isFunctionLike_iff, records.names.bound,
    records.names.globals, records.names.nonlocals]

theorem Records.mem_childEnclosing_iff :
    name ∈ scope.childEnclosing enclosing ↔
      name ∈ enclosing ∨ name ∈ scope.localNames ∨ block.kind = .class_ ∧ name = "__class__" := by
  refine ⟨fun h ↦ ?_, ?_⟩
  · rcases ScopeBuilder.mem_childEnclosing h with outer | own | ⟨isClass, same⟩
    · exact .inl outer
    · exact .inr (.inl own)
    · exact .inr (.inr ⟨records.isClass_iff.mp isClass, same⟩)
  · rintro (outer | own | ⟨isClass, rfl⟩) <;> unfold ScopeBuilder.childEnclosing
    · split_ifs <;> simp [outer]
    · rw [if_pos (ScopeBuilder.mem_localNames.mp own).1]
      simp [own]
    · have kind : scope.kind = .class_ := records.isClass_iff.mpr isClass
      simp [kind, ScopeKind.isFunctionLike]

end

/-- What a function hands on to the blocks inside it. -/
theorem outward_function (isFunction : block.kind ≠ .module ∧ block.kind ≠ .class_)
    (notTypeParams : block.kind ≠ .typeParams) :
    outward name false (block :: outer) =
      if name ∈ block.globals then .global
      else if name ∈ block.nonlocals then outward name false outer
      else if name ∈ block.bound then .free
      else outward name false outer := by
  conv_lhs => unfold outward
  split <;> simp_all

theorem outward_class (isClass : block.kind = .class_) :
    outward name false (block :: outer) =
      if name = "__class__" then .free else outward name false outer := by
  conv_lhs => unfold outward
  simp [isClass]

theorem outward_module (isModule : block.kind = .module) :
    outward name false (block :: outer) = .global := by
  unfold outward
  simp [isModule]

section

variable (records : Records scope block) (around : Around scope block outer enclosing)
include records around

/-- The names around an inner block are right about the names that it leaves open. -/
theorem Around.asks_child (untangled : Untangled block outer)
    (visited : Visited block outer child) (asks : Asks child name) :
    name ∈ scope.childEnclosing enclosing ↔ outward name false (block :: outer) = .free := by
  obtain ⟨globals, -, -, format, -⟩ := untangled
  rw [records.mem_childEnclosing_iff, records.mem_localNames_iff]
  by_cases isModule : block.kind = .module
  · simp [outward_module isModule, around.module isModule, isModule]
  by_cases isClass : block.kind = .class_
  · rw [outward_class isClass]
    by_cases implicit : name = "__class__"
    · simp [implicit, isClass]
    · have passed : Asks block name := .inner visited.mem asks (by simp [isClass, implicit])
      simp [implicit, isClass, around.asks name passed]
  have isFunction : block.kind ≠ .module ∧ block.kind ≠ .class_ := ⟨isModule, isClass⟩
  rw [outward_function isFunction around.notTypeParams]
  by_cases isGlobal : name ∈ block.globals
  · have notEnclosing : name ∉ enclosing := fun h ↦
      globals name isGlobal (around.capturable name h) child visited asks
    simp [isGlobal, notEnclosing, isClass]
  by_cases isNonlocal : name ∈ block.nonlocals
  · simp [isGlobal, isNonlocal, isClass, around.asks name (.nonlocal isNonlocal)]
  by_cases isBound : name ∈ block.bound
  · simp [isGlobal, isNonlocal, isBound, isFunction]
  have passed : Asks block name := .inner visited.mem asks (by simp [isClass, isBound, isGlobal])
  have notFormat : ¬(block.kind = .annotations ∧ name = "format") := by
    rintro ⟨isAnnotations, rfl⟩
    exact format isAnnotations passed
  simp [isGlobal, isNonlocal, isBound, isClass, notFormat, around.asks name passed]

theorem Around.capturable_child
    (h : name ∈ scope.childEnclosing enclosing) : Capturable name (block :: outer) := by
  rw [records.mem_childEnclosing_iff, records.mem_localNames_iff] at h
  rcases h with outside | ⟨isFunction, bound, undeclared⟩ | isClass
  · obtain ⟨other, mem, binds⟩ := around.capturable name outside
    exact ⟨other, List.mem_cons_of_mem _ mem, binds⟩
  · refine ⟨block, List.mem_cons_self, .inl ⟨?_, bound, undeclared⟩⟩
    cases kind : block.kind <;> simp_all [Python.BlockKind.isFunctionLike]
  · exact ⟨block, List.mem_cons_self, .inr isClass⟩

/-! ## One scope -/

/-- The names that the blocks inside leave open, as scope analysis knows them. -/
structure Needs (scope : ScopeBuilder) (block : Block) (outer : List Block) (enclosing needed : List String) :
    Prop where
  asks : ∀ name ∈ needed, ∃ child, Visited block outer child ∧ Asks child name
  enclosing : ∀ name ∈ needed, name ∈ scope.childEnclosing enclosing

theorem Around.validate_ok :
    scope.validateNonlocalBindings enclosing = .ok () ↔ Found block outer := by
  have found : Found block outer ↔
      ∀ name ∈ scope.nonlocalDecl, scope.kind ≠ .module ∧ name ∈ enclosing := by
    refine forall_congr' fun name ↦ ?_
    rw [records.names.nonlocals]
    refine imp_congr_right fun declared ↦ ?_
    rw [← around.asks name (.nonlocal declared), Iff.comm, and_iff_right_iff_imp]
    intro mem isModule
    have : block.kind = .module := by
      rw [records.names.kind] at isModule
      cases kind : block.kind <;> simp_all [Python.BlockKind.scopeKind]
    simp [around.module this] at mem
  rw [found]
  refine ⟨ScopeBuilder.validateNonlocalBindings_ok, fun h ↦ ?_⟩
  suffices go : ∀ names, (∀ name ∈ names, scope.kind ≠ .module ∧ name ∈ enclosing) →
      ScopeBuilder.validateNonlocalBindings.go scope enclosing names = .ok () from go _ h
  intro names bound
  induction names with
  | nil => rfl
  | cons head tail ih =>
    rw [ScopeBuilder.validateNonlocalBindings.go, if_neg (bound head List.mem_cons_self).1,
      if_pos (bound head List.mem_cons_self).2]
    exact ih fun name mem ↦ bound name (List.mem_cons_of_mem _ mem)

/-- The free variables of a scope are names that its block leaves open. -/
theorem Around.free_asks (needs : Needs scope block outer enclosing needed)
    (free : name ∈ scope.freeNames enclosing needed) : Asks block name := by
  obtain ⟨source, notClassCell⟩ := ScopeBuilder.mem_freeNames.mp free
  have notLocal := ScopeBuilder.not_mem_localNames_of_free free
  by_cases isNonlocal : name ∈ block.nonlocals
  · exact .nonlocal isNonlocal
  rcases source with nonlocal | used | threaded
  · exact absurd ((records.names.nonlocals name).mp nonlocal) isNonlocal
  · obtain ⟨isUsed, -, notGlobal, notNamespace, outside⟩ := ScopeBuilder.mem_usedFree.mp used
    rw [records.names.globals] at notGlobal
    refine .used ((records.names.used name).mp isUsed) (fun bound ↦ ?_) notGlobal
    rw [records.mem_localNames_iff] at notLocal
    rw [records.isClass_iff, records.names.bound, records.names.nonlocals] at notNamespace
    by_cases isModule : block.kind = .module
    · simp [around.module isModule] at outside
    · tauto
  · have passes (needed : name ∈ needed) (ok : if block.kind = .class_ then name ≠ "__class__"
        else name ∉ block.bound ∧ name ∉ block.globals) : Asks block name := by
      obtain ⟨child, visited, asks⟩ := needs.asks name needed
      exact .inner visited.mem asks ok
    by_cases isClass : block.kind = .class_
    · have kind := records.isClass_iff.mpr isClass
      simp only [ScopeBuilder.threadedFree, kind, List.mem_filter] at threaded
      refine passes threaded.1 ?_
      rw [if_pos isClass]
      rintro rfl
      exact notClassCell ⟨ScopeBuilder.needsClassClosure_iff.mpr ⟨kind, threaded.1⟩, rfl⟩
    · have notClass : scope.kind ≠ .class_ := fun h ↦ isClass (records.isClass_iff.mp h)
      have inner : name ∈ needed ∧ name ∉ scope.globalDecl := by
        unfold ScopeBuilder.threadedFree at threaded
        split at threaded <;> simp_all
      refine passes inner.1 ?_
      rw [if_neg isClass, ← records.names.globals]
      refine ⟨fun bound ↦ ?_, inner.2⟩
      rw [records.mem_localNames_iff] at notLocal
      rw [records.names.globals] at inner
      by_cases isModule : block.kind = .module
      · have kind : scope.kind = .module := by
          rw [records.names.kind, isModule]
          rfl
        simp [ScopeBuilder.threadedFree, kind] at threaded
      · tauto

theorem Around.free_enclosing (needs : Needs scope block outer enclosing needed)
    (found : Found block outer) (free : name ∈ scope.freeNames enclosing needed) :
    name ∈ enclosing := by
  obtain ⟨source, notClassCell⟩ := ScopeBuilder.mem_freeNames.mp free
  have notLocal := ScopeBuilder.not_mem_localNames_of_free free
  have enclosed (needed : name ∈ needed) : name ∈ enclosing := by
    rcases records.mem_childEnclosing_iff.mp (needs.enclosing name needed) with
      outside | own | ⟨isClass, rfl⟩
    · exact outside
    · exact absurd own notLocal
    · exact absurd ⟨ScopeBuilder.needsClassClosure_iff.mpr
        ⟨records.isClass_iff.mpr isClass, needed⟩, rfl⟩ notClassCell
  rcases source with nonlocal | used | threaded
  · have declared := (records.names.nonlocals name).mp nonlocal
    exact (around.asks name (.nonlocal declared)).mpr (found name declared)
  · exact (ScopeBuilder.mem_usedFree.mp used).2.2.2.2
  · refine enclosed ?_
    unfold ScopeBuilder.threadedFree at threaded
    split at threaded <;> simp_all

variable (untangled : Untangled block outer)
include untangled

/-- A name that a block leaves open is a free variable of its scope exactly when scope analysis finds
it around. -/
theorem Around.free_iff (needs : Needs scope block outer enclosing needed) (found : Found block outer)
    (own : name ∈ block.nonlocals ∨ name ∈ block.used ∧ name ∉ block.bound ∧ name ∉ block.globals) :
    name ∈ scope.freeNames enclosing needed ↔ name ∈ enclosing := by
  refine ⟨around.free_enclosing records needs found, fun outside ↦ ?_⟩
  obtain ⟨-, classCell, -, format, -⟩ := untangled
  have notClassCell : ¬(scope.needsClassClosure needed = true ∧ name = "__class__") := by
    rintro ⟨closure, rfl⟩
    obtain ⟨isClass, needed⟩ := ScopeBuilder.needsClassClosure_iff.mp closure
    obtain ⟨child, visited, inner⟩ := needs.asks _ needed
    exact classCell (records.isClass_iff.mp isClass) (around.capturable _ outside) own child visited inner
  refine ScopeBuilder.mem_freeNames.mpr ⟨?_, notClassCell⟩
  rcases own with declared | ⟨used, unbound, undeclared⟩
  · exact .inl ((records.names.nonlocals name).mpr declared)
  · have notFormat : ¬(block.kind = .annotations ∧ name = "format") := by
      rintro ⟨isAnnotations, rfl⟩
      exact format isAnnotations (.used used unbound undeclared)
    refine .inr (.inl (ScopeBuilder.mem_usedFree.mpr ⟨(records.names.used name).mpr used, ?_, ?_, ?_,
      outside⟩))
    · rw [records.mem_localNames_iff]
      tauto
    · rwa [records.names.globals]
    · rw [records.names.bound]
      tauto

variable (legal : Throughout Event.Legal block) (needs : Needs scope block outer enclosing needed)
  (found : Found block outer)
include legal needs found

/-- A name that a block declares global is not free in its scope. -/
theorem Around.not_free_of_global (isGlobal : name ∈ block.globals) :
    name ∉ scope.freeNames enclosing needed := by
  intro free
  have outside := around.free_enclosing records needs found free
  obtain ⟨globals, -⟩ := untangled
  rcases (ScopeBuilder.mem_freeNames.mp free).1 with nonlocal | used | threaded
  · exact not_global_and_nonlocal legal isGlobal ((records.names.nonlocals name).mp nonlocal)
  · exact (ScopeBuilder.mem_usedFree.mp used).2.2.1 ((records.names.globals name).mpr isGlobal)
  · have needed : name ∈ needed := by
      unfold ScopeBuilder.threadedFree at threaded
      split at threaded <;> simp_all
    obtain ⟨child, visited, asks⟩ := needs.asks name needed
    exact globals name isGlobal (around.capturable name outside) child visited asks

/-- A name of a block is resolved as the language does. -/
theorem Around.resolution_eq (mem : name ∈ block.occurrences) :
    scope.resolution enclosing needed name = block.resolve outer name := by
  have isLocal : name ∈ scope.localNames ↔ _ := records.mem_localNames_iff
  have isBound := records.names.bound name
  unfold ScopeBuilder.resolution Python.Block.resolve
  simp only [records.isClass_iff, records.names.globals, records.names.nonlocals]
  by_cases isModule : block.kind = .module
  · have notFree : name ∉ scope.freeNames enclosing needed := fun free ↦ by
      have outside := around.free_enclosing records needs found free
      simp [around.module isModule] at outside
    simp [isLocal, isModule, notFree]
  by_cases isGlobal : name ∈ block.globals
  · have notFree := around.not_free_of_global records untangled legal needs found isGlobal
    simp [isLocal, isGlobal, notFree]
  by_cases isNonlocal : name ∈ block.nonlocals
  · have outside : name ∈ enclosing :=
      (around.asks name (.nonlocal isNonlocal)).mpr (found name isNonlocal)
    have isFree := (around.free_iff records untangled needs found (.inl isNonlocal)).mpr outside
    simp [isLocal, isModule, isGlobal, isNonlocal, isFree]
  by_cases bound : name ∈ block.bound
  · by_cases isClass : block.kind = .class_ <;>
      simp [isLocal, isBound, isModule, isGlobal, isNonlocal, bound, isClass]
  have used : name ∈ block.used := by
    simp only [Python.Block.occurrences, List.mem_append] at mem
    tauto
  have asks : Asks block name := .used used bound isGlobal
  have notFormat : ¬(block.kind = .annotations ∧ name = "format") := by
    rintro ⟨isAnnotations, rfl⟩
    obtain ⟨-, -, -, format, -⟩ := untangled
    exact format isAnnotations asks
  have isFree := around.free_iff records untangled needs found (.inr ⟨used, bound, isGlobal⟩)
  rw [around.asks name asks] at isFree
  rw [around.used name used bound isGlobal]
  rcases outward_plain name outer with free | global
  · simp [isLocal, isBound, isModule, isGlobal, isNonlocal, bound, notFormat, isFree, free]
  · simp [isLocal, isBound, isModule, isGlobal, isNonlocal, bound, notFormat, isFree, global]

end

theorem notTypeParams_of_plain (plain : Throughout Event.Plain block) (mem : child ∈ block.children) :
    child.kind ≠ .typeParams := by
  obtain ⟨here, -⟩ := plain
  rcases List.mem_append.mp mem with isAnnotate | isBlock
  · have isAnnotate : block.annotations = some child := by simpa using isAnnotate
    simp [(annotations_eq_some [] isAnnotate).1]
  · obtain ⟨event, present, isChild⟩ := List.mem_flatMap.mp isBlock
    obtain ⟨before, after, split⟩ := List.append_of_mem present
    have plainEvent := here before event after split
    cases event with
    | block kind name span events =>
      obtain rfl := List.mem_singleton.mp isChild
      rintro rfl
      exact plainEvent
    | _ => exact nomatch isChild

theorem Around.inner {inner : ScopeBuilder} (records : Records scope block)
    (around : Around scope block outer enclosing) (untangled : Untangled block outer)
    (plain : Throughout Event.Plain block) (visited : Visited block outer child)
    (represents : Records inner child) (notModule : inner.kind ≠ .module) :
    Around inner child (block :: outer) (scope.childEnclosing enclosing) where
  notTypeParams := notTypeParams_of_plain plain visited.mem
  module isModule := by
    rw [represents.names.kind, isModule] at notModule
    exact absurd rfl notModule
  asks name asks := around.asks_child records untangled visited asks
  capturable name outside := around.capturable_child records outside
  used name used unbound undeclared := by
    obtain ⟨-, -, annotations, -⟩ := untangled
    exact annotations child visited name used unbound undeclared

end Around

/-! ## Finalizing -/

/-- A finished scope resolves the names of its block. -/
structure Resolves (block : Block) (outer : List Block) (enclosing : List String)
    (info : ScopeInfo) : Prop where
  found : NonlocalsFound block outer
  agrees : Agrees info block outer
  asks : ∀ name ∈ info.freeVars, Asks block name
  enclosing : ∀ name ∈ info.freeVars, name ∈ enclosing

/-- What has to come of finalizing a scope. -/
def Finalizes (block : Block) (outer : List Block) (enclosing : List String) :
    Except LowerError ScopeInfo → Prop
  | .ok info => Resolves block outer enclosing info
  | .error _ => ¬NonlocalsFound block outer

theorem finalizeScopes_resolves {builders : List ScopeBuilder} {blocks : List Block}
    (same : List.Forall₂ Records builders blocks)
    (each : ∀ builder ∈ builders, ∀ before block after, blocks = before ++ block :: after →
      (∀ sibling ∈ before, NonlocalsFound sibling outer) → Records builder block →
      Finalizes block outer enclosing (finalizeScope builder enclosing)) :
    match finalizeScopes builders enclosing with
    | .ok infos => List.Forall₂ (fun info block ↦ Resolves block outer enclosing info) infos blocks
    | .error _ => ∃ block ∈ blocks, ¬NonlocalsFound block outer := by
  induction same with
  | nil => exact .nil
  | @cons builder block builders blocks represents rest ih =>
    have first := each builder List.mem_cons_self [] block blocks rfl (List.forall_mem_nil _) represents
    rw [finalizeScopes]
    cases run : finalizeScope builder enclosing with
    | error e =>
      rw [run] at first
      exact ⟨block, List.mem_cons_self, first⟩
    | ok info =>
      rw [run] at first
      have others := ih fun other mem before next after split found ↦
        each other (List.mem_cons_of_mem _ mem) (block :: before) next after (congrArg _ split)
          (List.forall_mem_cons.mpr ⟨first.found, found⟩)
      cases run' : finalizeScopes builders enclosing with
      | error e =>
        rw [run'] at others
        obtain ⟨other, mem, missing⟩ := others
        exact ⟨other, List.mem_cons_of_mem _ mem, missing⟩
      | ok infos =>
        rw [run'] at others
        exact .cons first others

theorem finalizeOption_resolves {builder : Option ScopeBuilder} {block : Option Block}
    (same : Option.Rel Records builder block)
    (each : ∀ b ∈ builder, ∀ d ∈ block, Records b d →
      Finalizes d outer enclosing (finalizeScope b enclosing)) :
    match finalizeOption builder enclosing with
    | .ok info => List.Forall₂ (fun info block ↦ Resolves block outer enclosing info)
        info.toList block.toList
    | .error _ => ∃ d ∈ block.toList, ¬NonlocalsFound d outer := by
  cases same with
  | none => exact .nil
  | @some builder block represents =>
    have only := each builder rfl block rfl represents
    rw [finalizeOption]
    cases run : finalizeScope builder enclosing with
    | error e =>
      rw [run] at only
      exact ⟨block, by simp, only⟩
    | ok info =>
      rw [run] at only
      exact .cons only .nil

theorem Python.NonlocalsFound.not_of_child (mem : child ∈ block.children)
    (missing : ¬NonlocalsFound child (block :: outer)) : ¬NonlocalsFound block outer := by
  rintro ⟨-, inner⟩
  exact missing (inner child mem)

/-- Where all nonlocal names are found, all inner blocks are resolved. -/
theorem Python.NonlocalsFound.visited (found : NonlocalsFound block outer) (mem : child ∈ block.children) :
    Visited block outer child := by
  obtain ⟨own, inner⟩ := found
  obtain ⟨before, after, split⟩ := List.append_of_mem mem
  exact ⟨own, before, after, split, fun sibling earlier ↦
    inner sibling (split ▸ List.mem_append_left _ earlier)⟩

theorem exists_of_forall₂_left {α β : Type} {R : α → β → Prop} {left : List α} {right : List β}
    (h : List.Forall₂ R left right) {a : α} (mem : a ∈ left) : ∃ b ∈ right, R a b := by
  induction h with
  | nil => exact nomatch mem
  | @cons a' b left right related _ ih =>
    rcases List.mem_cons.mp mem with rfl | later
    · exact ⟨b, List.mem_cons_self, related⟩
    · obtain ⟨other, present, related⟩ := ih later
      exact ⟨other, List.mem_cons_of_mem _ present, related⟩

/-- The finished inner scopes and the block make a finished scope. -/
theorem Resolves.of_children (records : Records scope block)
    (around : Around scope block outer enclosing) (untangled : Untangled block outer)
    (legal : Throughout Event.Legal block) (found : Found block outer)
    (inner : List.Forall₂ (fun info child ↦
      Resolves child (block :: outer) (scope.childEnclosing enclosing) info) children block.children) :
    Resolves block outer enclosing
      (scope.scopeInfo enclosing (namesNeededByChildren children) children) := by
  have allFound : NonlocalsFound block outer := by
    refine .intro found fun child mem ↦ ?_
    obtain ⟨info, -, resolves⟩ := exists_of_forall₂_left inner.flip mem
    exact resolves.found
  have needs : Needs scope block outer enclosing (namesNeededByChildren children) := by
    have source (name : String) (mem : name ∈ namesNeededByChildren children) :
        ∃ child, Visited block outer child ∧ Asks child name ∧ name ∈ scope.childEnclosing enclosing := by
      obtain ⟨info, present, free⟩ := mem_namesNeededByChildren.mp mem
      obtain ⟨child, isChild, resolves⟩ := exists_of_forall₂_left inner present
      exact ⟨child, allFound.visited isChild, resolves.asks name free, resolves.enclosing name free⟩
    exact ⟨fun name mem ↦ (source name mem).imp fun _ h ↦ ⟨h.1, h.2.1⟩,
      fun name mem ↦ (source name mem).elim fun _ h ↦ h.2.2⟩
  obtain ⟨length, pairs⟩ := List.forall₂_iff_zip.mp inner
  have names := records.names
  constructor
  · exact allFound
  · refine .intro names.kind names.name names.span (fun name mem ↦ ?_) length
      fun child mem ↦ (pairs mem).agrees
    have occurs : name ∈ scope.used ∨ name ∈ scope.bound ∨ name ∈ scope.globalDecl ∨
        name ∈ scope.nonlocalDecl := by
      rw [names.used, names.bound, names.globals, names.nonlocals]
      simp only [Python.Block.occurrences, List.mem_append] at mem
      tauto
    rw [ScopeBuilder.resolution_scopeInfo (ScopeBuilder.mem_allNames occurs),
      around.resolution_eq records untangled legal needs found mem]
  · exact fun name free ↦ around.free_asks records needs free
  · exact fun name free ↦ around.free_enclosing records needs found free

/-- Finalizing the builder of an untangled block succeeds exactly when the nonlocal names are found,
and then resolves all names. -/
theorem finalizeScope_resolves (scope : ScopeBuilder) {block : Block} {outer : List Block}
    {enclosing : List String} (records : Records scope block) (nested : scope.Nested)
    (plain : Throughout Event.Plain block) (legal : Throughout Event.Legal block)
    (untangled : Untangled block outer) (around : Around scope block outer enclosing) :
    Finalizes block outer enclosing (finalizeScope scope enclosing) := by
  have each (inner : ScopeBuilder) (present : inner ∈ scope.inner) (child : Block)
      (visited : Visited block outer child) (represents : Records inner child) :
      Finalizes child (block :: outer) (scope.childEnclosing enclosing)
        (finalizeScope inner (scope.childEnclosing enclosing)) := by
    obtain ⟨kinds, nestedInner⟩ := nested
    have around := around.inner records untangled plain visited represents (kinds inner present)
    obtain ⟨-, plain⟩ := plain
    obtain ⟨-, legal⟩ := legal
    obtain ⟨-, -, -, -, untangled⟩ := untangled
    have := ScopeBuilder.sizeOf_inner_lt present
    exact finalizeScope_resolves inner represents (nestedInner inner present) (plain child visited.mem)
      (legal child visited.mem) (untangled child visited) around
  have valid := around.validate_ok records
  rw [finalizeScope_eq]
  cases run : scope.validateNonlocalBindings enclosing with
  | error e =>
    rw [run] at valid
    rintro ⟨found, -⟩
    exact nomatch valid.mpr found
  | ok =>
    have found := valid.mp run
    obtain ⟨-, deferred, others⟩ := id records
    have first := finalizeOption_resolves deferred fun b isB d isD ↦
      each b (List.mem_append_left _ (by simpa using isB)) d
        ⟨found, [], _, by rw [Python.Block.children, Option.mem_def.mp isD]; rfl, List.forall_mem_nil _⟩
    cases run' : finalizeOption scope.annotate (scope.childEnclosing enclosing) with
    | error e =>
      rw [run'] at first
      obtain ⟨child, mem, missing⟩ := first
      exact NonlocalsFound.not_of_child (List.mem_append_left _ mem) missing
    | ok annotate =>
      rw [run'] at first
      have foundFirst : ∀ sibling ∈ block.annotations.toList, NonlocalsFound sibling (block :: outer) := by
        intro sibling mem
        obtain ⟨info, -, resolves⟩ := exists_of_forall₂_left first.flip mem
        exact resolves.found
      have rest := finalizeScopes_resolves others fun b isB before d after split foundBefore ↦
        each b (List.mem_append_right _ isB) d
          ⟨found, block.annotations.toList ++ before, after, by simp [Python.Block.children, split],
            List.forall_mem_append.mpr ⟨foundFirst, foundBefore⟩⟩
      cases run'' : finalizeScopes scope.children (scope.childEnclosing enclosing) with
      | error e =>
        rw [run''] at rest
        obtain ⟨child, mem, missing⟩ := rest
        exact NonlocalsFound.not_of_child (List.mem_append_right _ mem) missing
      | ok children =>
        rw [run''] at rest
        exact .of_children records around untangled legal found (List.rel_append first rest)
termination_by sizeOf scope

/-! ## Modules -/

/-- A module in which every form is treated as in the language, up to the first illegal declaration, and,
where the declarations are legal, no name is entangled. -/
structure Regular (body : List Stmt) : Prop where
  plain : PlainUntil (Python.moduleBlock body)
  untangled : Throughout Event.Legal (Python.moduleBlock body) → Untangled (Python.moduleBlock body) []

theorem scanBody_module (body : List Stmt) (plain : PlainUntil (Python.moduleBlock body)) :
    Outcome (Python.moduleBlock body) (scanBody body { kind := .module, name := "__main__" }) :=
  scanBody_tracks (.inl rfl) body (records_fresh .module (by decide) "__main__" none) rfl plain
    (throughout_nil _ _ _)

theorem around_module (scope : ScopeBuilder) (body : List Stmt) :
    Around scope (Python.moduleBlock body) [] [] where
  notTypeParams := by simp [Python.moduleBlock]
  module _ := rfl
  asks := by simp [outward]
  capturable := by simp
  used _ _ _ _ := rfl

/-- A condition that does not look at the earlier events. -/
theorem Python.Throughout.of_mem {P : BlockKind → List Event → Event → Prop}
    (here : ∀ event ∈ block.events, ∀ before, P block.kind before event)
    (inner : ∀ child ∈ block.children, Throughout P child) : Throughout P block :=
  .intro (fun before event _ split ↦ here event (by simp [split]) before) inner

/-- `def f(): x = 1` with an inner function `def g(): return x` -/
def captureModule : List Stmt :=
  [.functionDef ⟨0, 50⟩ false [] "f" [] (.mk [] [] none [] none) none
    [.assign [.name "x" .store] (.literal "1"),
     .functionDef ⟨20, 50⟩ false [] "g" [] (.mk [] [] none [] none) none
       [.ret (some (.name "x" .load))]]]

theorem regular_capture : Regular captureModule := by
  let inner : Block := { kind := .function, name := "g", span := some ⟨20, 50⟩, events := [.use "x"] }
  let function : Block :=
    { kind := .function, name := "f", span := some ⟨0, 50⟩,
      events := [.bind "x", .bind "g", .block .function "g" (some ⟨20, 50⟩) [.use "x"]] }
  have module : (Python.moduleBlock captureModule).events =
      [.bind "f", .block .function "f" (some ⟨0, 50⟩) function.events] := rfl
  have child : (Python.moduleBlock captureModule).children = [function] := rfl
  have child' : function.children = [inner] := rfl
  have leaf : inner.children = [] := rfl
  have kind : (Python.moduleBlock captureModule).kind = .module := rfl
  constructor
  · refine @PlainUntil.of_plain _ [] ?_
    rw [Python.Block.append_nil]
    refine .of_mem (by simp [module, kind, Event.Plain]) ?_
    simp only [child, List.mem_singleton, forall_eq]
    refine .of_mem (by simp [function, Event.Plain]) ?_
    simp only [child', List.mem_singleton, forall_eq]
    exact .of_mem (by simp [inner, Event.Plain]) (by simp [leaf])
  · have only {other : Block} (visited : Visited (Python.moduleBlock captureModule) [] other) :
        other = function := List.mem_singleton.mp (child ▸ visited.mem)
    have only' {outer : List Block} {other : Block} (visited : Visited function outer other) :
        other = inner := List.mem_singleton.mp (child' ▸ visited.mem)
    have none {outer : List Block} {other : Block} (visited : Visited inner outer other) : False :=
      List.not_mem_nil (leaf ▸ visited.mem)
    refine fun _ ↦ .intro (fun _ isGlobal ↦ nomatch isGlobal) (fun isClass ↦ nomatch isClass)
      (fun other visited ↦ ?_) (fun isAnnotations ↦ nomatch isAnnotations) fun other visited ↦ ?_
    · simp [only visited, function, Python.BlockKind.seesClass]
    rw [only visited]
    refine .intro (fun _ isGlobal ↦ nomatch isGlobal) (fun isClass ↦ nomatch isClass)
      (fun other visited ↦ ?_) (fun isAnnotations ↦ nomatch isAnnotations) fun other visited ↦ ?_
    · simp [only' visited, inner, Python.BlockKind.seesClass]
    rw [only' visited]
    exact .intro (fun _ isGlobal ↦ nomatch isGlobal) (fun isClass ↦ nomatch isClass)
      (fun _ visited ↦ (none visited).elim) (fun isAnnotations ↦ nomatch isAnnotations)
      fun _ visited ↦ (none visited).elim

/-- `def f(z): [y := i for i in z]; return y` -/
def walrusModule : List Stmt :=
  [.functionDef ⟨0, 60⟩ false [] "f" [] (.mk [] [.mk (.mk "z" none) none] none [] none) none
    [.expr (.listComp ⟨14, 33⟩ (.named (.name "y" .store) (.name "i" .load))
      [.mk (.name "i" .store) (.name "z" .load) [] false]),
     .ret (some (.name "y" .load))]]

/-- The only child of a scope takes the name for a global. -/
def takesForGlobal (root : ScopeInfo) (name : String) : Bool :=
  match root.children with
  | [function] => function.resolution name = some .global
  | _ => false

end Pon.Scope
