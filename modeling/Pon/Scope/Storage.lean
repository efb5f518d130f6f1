import Pon.Ir.Inst
import Pon.Scope.Linkage

/-!
# Where names are stored

The instructions that lowering emits for a name of a scope: loads, and a store routine for each form
of binding. The routines for assignments and function definitions follow the classification of the
name. Those for classes, imports and exception handlers only tell globals and local slots apart, and
store everything else in the namespace: they miss the cell of a nonlocal name.
-/

namespace Pon.Scope

open Ast Ir

/-! ## The scope of a body -/

namespace ScopeInfo

def isModule (info : ScopeInfo) : Bool := info.kind = .module

def isClass (info : ScopeInfo) : Bool := info.kind = .class_

def localSlot (info : ScopeInfo) (name : String) : Option LocalId :=
  if info.isClass then none
  else
    match info.classOf name with
    | some (.local slot) => some slot
    | some (.cell localSlot _) => some localSlot
    | _ => none

/-- The cells of the enclosing scopes follow the scope's own cells. -/
def freeCell (info : ScopeInfo) (slot : ℕ) : CellId := info.cellVars.length + slot

/-- The cell that a name access in a class body uses instead of the namespace: the name is captured
from an enclosing function, and not bound in the class body or declared nonlocal. -/
def classDerefCell (info : ScopeInfo) (name : String) : Option CellId :=
  match info.symbol name with
  | some symbol =>
      match symbol.nameClass with
      | .free slot => if symbol.isBound && !symbol.isNonlocal then none else some (info.freeCell slot)
      | _ => none
  | none => none

def isGlobalName (info : ScopeInfo) (name : String) : Bool :=
  info.isModule || info.classOf name = some (.global true)

def cellSlotForLocal (info : ScopeInfo) (slot : LocalId) : Option CellId :=
  info.cellVars.findSome? fun name ↦
    match info.classOf name with
    | some (.cell localSlot cellSlot) => if localSlot = slot then some cellSlot else none
    | _ => none

/-- Accesses to a captured local go through its cell. -/
def rewriteCellLocalAccess (info : ScopeInfo) : InstKind Value → InstKind Value
  | .loadLocal slot => (info.cellSlotForLocal slot).elim (.loadLocal slot) .loadCell
  | .storeLocal slot value =>
      (info.cellSlotForLocal slot).elim (.storeLocal slot value) (.storeCell · value)
  | .deleteLocal slot => (info.cellSlotForLocal slot).elim (.deleteLocal slot) .deleteCell
  | kind => kind

/-! ## Access routines -/

def lowerNameLoad (info : ScopeInfo) (name : String) : InstKind Value :=
  if info.isClass && !info.isGlobalName name then
    match info.classDerefCell name with
    | some cell => .loadCell cell
    | none => .loadName name
  else
    match info.classOf name with
    | some (.local slot) => .loadLocal slot
    | some (.cell _ cellSlot) => .loadCell cellSlot
    | some (.free slot) => .loadCell (info.freeCell slot)
    | some .builtin => .loadBuiltin name
    | some (.global _) | none => .loadGlobal name

/-- A store that follows the classification of the name. -/
def storeByClass (info : ScopeInfo) (name : String) (value : Value) : InstKind Value :=
  if info.isGlobalName name then .storeGlobal name value
  else if info.isClass then
    match info.classDerefCell name with
    | some cell => .storeCell cell value
    | none => .storeName name value
  else
    match info.classOf name with
    | some (.cell _ cellSlot) => .storeCell cellSlot value
    | some (.free slot) => .storeCell (info.freeCell slot) value
    | some (.local slot) => .storeLocal slot value
    | some .builtin | some (.global _) | none => .storeName name value

/-- A store that only looks for a global declaration and a local slot. -/
def storeBySlot (info : ScopeInfo) (name : String) (value : Value) : InstKind Value :=
  if info.isGlobalName name then .storeGlobal name value
  else
    match info.localSlot name with
    | some slot => .storeLocal slot value
    | none => .storeName name value

/-- Assignment, `for` and `with` targets, walrus, type aliases and match captures. -/
def storeNameValue (info : ScopeInfo) (name : String) (value : Value) : InstKind Value :=
  info.storeByClass name value

def storeFunctionValue (info : ScopeInfo) (name : String) (value : Value) : InstKind Value :=
  info.storeByClass name value

/-- The last store of a class definition. -/
def storeClassValue (info : ScopeInfo) (name : String) (value : Value) : InstKind Value :=
  info.storeBySlot name value

def storeImportBinding (info : ScopeInfo) (name : String) (value : Value) : InstKind Value :=
  info.storeBySlot name value

def storeHandlerNameValue (info : ScopeInfo) (name : String) (value : Value) : InstKind Value :=
  info.storeBySlot name value

def lowerDeleteName (info : ScopeInfo) (name : String) : InstKind Value :=
  if info.isGlobalName name then .deleteGlobal name
  else if info.isClass then
    match info.classDerefCell name with
    | some cell => .deleteCell cell
    | none => .deleteName name
  else
    match info.classOf name with
    | some (.cell _ cellSlot) => .deleteCell cellSlot
    | some (.free slot) => .deleteCell (info.freeCell slot)
    | some (.local slot) => .deleteLocal slot
    | some .builtin | some (.global _) | none => .deleteName name

/-- The load and the store of an augmented assignment to a name. -/
def lowerAugTarget (info : ScopeInfo) (name : String) (value : Value) :
    InstKind Value × InstKind Value :=
  if info.isGlobalName name then (.loadGlobal name, .storeGlobal name value)
  else if info.isClass then
    match info.classDerefCell name with
    | some cell => (.loadCell cell, .storeCell cell value)
    | none => (.loadName name, .storeName name value)
  else
    match info.classOf name with
    | some (.cell _ cellSlot) => (.loadCell cellSlot, .storeCell cellSlot value)
    | some (.free slot) =>
        (.loadCell (info.freeCell slot), .storeCell (info.freeCell slot) value)
    | some (.local slot) => (.loadLocal slot, .storeLocal slot value)
    | some .builtin | some (.global _) | none => (.loadName name, .storeName name value)

end ScopeInfo

/-- The forms in which code accesses a name. -/
inductive Access where
  | load | store | augLoad | augStore | delete | functionDef | classDef | import_ | exceptAs
  deriving DecidableEq

/-- The instruction for an access to a name. -/
def Access.inst (access : Access) (info : ScopeInfo) (name : String) (value : Value) :
    InstKind Value :=
  info.rewriteCellLocalAccess <|
    match access with
    | load => info.lowerNameLoad name
    | store => info.storeNameValue name value
    | augLoad => (info.lowerAugTarget name value).1
    | augStore => (info.lowerAugTarget name value).2
    | delete => info.lowerDeleteName name
    | functionDef => info.storeFunctionValue name value
    | classDef => info.storeClassValue name value
    | import_ => info.storeImportBinding name value
    | exceptAs => info.storeHandlerNameValue name value

/-- The forms whose store routine only tells globals and local slots apart. -/
def Access.storesBySlot : Access → Bool
  | classDef | import_ | exceptAs => true
  | load | store | augLoad | augStore | delete | functionDef => false

/-- The scope contains an access of the form to the symbol, as far as scope analysis records it. -/
def Access.occurs (access : Access) (symbol : SymbolInfo) : Bool :=
  if access = .load then symbol.isUsed else symbol.isBound

/-! ## Locations -/

inductive Location where
  | localSlot (slot : LocalId)
  | cell (cell : CellId)
  | moduleGlobal (name : String)
  | namespace (name : String)
  deriving DecidableEq

/-- The location that an instruction reads, writes or deletes. A builtin is looked up among the
globals first. -/
def location? {V : Type} : InstKind V → Option Location
  | .loadLocal slot | .storeLocal slot _ | .deleteLocal slot => some (.localSlot slot)
  | .loadCell cell | .storeCell cell _ | .deleteCell cell => some (.cell cell)
  | .loadGlobal name | .storeGlobal name _ | .deleteGlobal name | .loadBuiltin name =>
      some (.moduleGlobal name)
  | .loadName name | .storeName name _ | .deleteName name => some (.namespace name)
  | _ => none

/-- The location that the classification of a name gives it. In a class body a captured name that the
body binds itself stays in the class namespace, and so does every name without a cell. -/
def ScopeInfo.location (info : ScopeInfo) (name : String) : Location :=
  if info.isGlobalName name then .moduleGlobal name
  else if info.isClass then (info.classDerefCell name).elim (.namespace name) .cell
  else
    match info.classOf name with
    | some (.local slot) => .localSlot slot
    | some (.cell _ cellSlot) => .cell cellSlot
    | some (.free slot) => .cell (info.freeCell slot)
    | some .builtin | some (.global _) | none => .moduleGlobal name

/-- The scope declares the name nonlocal, and the name is a cell of an enclosing scope. -/
def SymbolInfo.isOuterCell (symbol : SymbolInfo) : Prop :=
  symbol.isNonlocal = true ∧ ∃ slot, symbol.nameClass = .free slot

/-! ## Slots -/

/-- Slots are numbered by their position. -/
def SlotsIndexed (slots : List LocalSlotInfo) : Prop :=
  ∀ (index : ℕ) (slot : LocalSlotInfo), slots[index]? = some slot → slot.slot = index

variable {builder : ScopeBuilder}

/-- The next slot goes to a local name that has none. -/
theorem ScopeBuilder.assignLocalSlots_induction
    {motive : List LocalSlotInfo → Prop} (nil : motive [])
    (assign : ∀ slots name isParameter, name ∈ builder.localNames →
      (∀ slot ∈ slots, slot.name ≠ name) → motive slots →
      motive (slots ++ [{ name, slot := slots.length, isParameter }])) :
    motive builder.assignLocalSlots := by
  have go (isParameter : Bool) (names : List String) {slots : List LocalSlotInfo}
      (h : motive slots) : motive (assignLocalSlots.go builder isParameter names slots) := by
    induction names generalizing slots with
    | nil => exact h
    | cons head tail ih =>
      rw [assignLocalSlots.go]
      split
      · next new => exact ih (assign slots head isParameter new.1 new.2 h)
      · exact ih h
  exact go false _ (go true _ nil)

theorem ScopeBuilder.slotsIndexed (builder : ScopeBuilder) : SlotsIndexed builder.assignLocalSlots := by
  refine assignLocalSlots_induction (fun _ _ found ↦ nomatch found) fun slots _ _ _ _ h index slot found ↦ ?_
  rcases Nat.lt_or_ge index slots.length with before | after
  · exact h index slot (by rwa [List.getElem?_append_left before] at found)
  · rw [List.getElem?_append_right after, List.getElem?_singleton] at found
    split_ifs at found with first
    cases found
    simp only
    omega

/-- Two names never share a local slot. -/
theorem slotOf?_inj {locals : List LocalSlotInfo} (indexed : SlotsIndexed locals) {slot : ℕ}
    {name other : String} (h : slotOf? locals name = some slot)
    (h' : slotOf? locals other = some slot) : name = other := by
  have position {name : String} (h : slotOf? locals name = some slot) :
      ∃ info, locals[slot]? = some info ∧ info.name = name := by
    obtain ⟨info, found, rfl⟩ := Option.map_eq_some_iff.mp h
    obtain ⟨index, there⟩ := List.mem_iff_getElem?.mp (List.mem_of_find?_eq_some found)
    rw [indexed index info there]
    exact ⟨info, there, by simpa using List.find?_some found⟩
  obtain ⟨info, there, rfl⟩ := position h
  obtain ⟨info', there', rfl⟩ := position h'
  rw [there] at there'
  cases there'
  rfl

/-! ## What a classification can be -/

namespace ScopeBuilder

variable {builder : ScopeBuilder} {enclosing needed : List String} {name : String}
  {children : List ScopeInfo}

theorem symbol_scopeInfo {symbol : SymbolInfo}
    (h : (builder.scopeInfo enclosing needed children).symbol name = some symbol) :
    symbol = builder.symbolInfo enclosing needed name := by
  have same : symbol.name = name := by simpa using List.find?_some h
  obtain ⟨other, -, rfl⟩ := List.mem_map.mp (List.mem_of_find?_eq_some h)
  obtain rfl : other = name := same
  rfl

theorem slotOf?_of_classify_local {slot : ℕ} (h : builder.classify enclosing needed name = .local slot) :
    slotOf? builder.assignLocalSlots name = some slot ∧ name ∉ builder.cellNames needed := by
  unfold classify at h
  split at h <;> try split_ifs at h
  all_goals cases h
  next noCell isLocal => exact ⟨isLocal, List.idxOf?_eq_none_iff.mp noCell⟩

theorem slotOf?_of_classify_cell {localSlot cellSlot : ℕ}
    (h : builder.classify enclosing needed name = .cell localSlot cellSlot) :
    slotOf? builder.assignLocalSlots name = some localSlot := by
  unfold classify at h
  split at h <;> try split_ifs at h
  all_goals cases h
  next isLocal _ => exact isLocal

/-- The class of a name that a function-like scope binds. -/
theorem classify_bound (functionLike : builder.kind.isFunctionLike = true)
    (bound : name ∈ builder.bound) :
    (∃ slot, builder.classify enclosing needed name = .local slot) ∨
    (∃ localSlot cellSlot, builder.classify enclosing needed name = .cell localSlot cellSlot) ∨
    (∃ slot, builder.classify enclosing needed name = .free slot) ∧ name ∈ builder.nonlocalDecl ∨
    builder.classify enclosing needed name = .global true := by
  by_cases isLocal : name ∈ builder.localNames
  · by_cases isCell : name ∈ builder.cellNames needed
    · exact .inr (.inl (classify_cell_iff.mpr ⟨isLocal, isCell⟩))
    · obtain ⟨slot, found⟩ := Option.isSome_iff_exists.mp (slotOf?_isSome.mpr isLocal)
      exact .inl ⟨slot, by simp [classify, found, List.idxOf?_eq_none_iff.mpr isCell]⟩
  · have noSlot : slotOf? builder.assignLocalSlots name = none := by
      rw [← Option.not_isSome_iff_eq_none, slotOf?_isSome]
      exact isLocal
    by_cases isFree : name ∈ builder.freeNames enclosing needed
    · refine .inr (.inr (.inl ⟨classify_free_iff.mpr isFree, ?_⟩))
      -- a free name that is not declared nonlocal is neither local nor declared global
      rcases (mem_freeNames.mp isFree).1 with nonlocal | used | threaded
      · exact nonlocal
      · have notGlobal := (mem_usedFree.mp used).2.2.1
        by_contra notNonlocal
        exact isLocal (mem_localNames.mpr ⟨functionLike, bound, notGlobal, notNonlocal⟩)
      · have notGlobal : name ∉ builder.globalDecl := by
          unfold threadedFree at threaded
          split at threaded <;> simp_all [ScopeKind.isFunctionLike]
        by_contra notNonlocal
        exact isLocal (mem_localNames.mpr ⟨functionLike, bound, notGlobal, notNonlocal⟩)
    · refine .inr (.inr (.inr ?_))
      have notNonlocal : name ∉ builder.nonlocalDecl := by
        intro nonlocal
        refine isFree (mem_freeNames.mpr ⟨.inl nonlocal, ?_⟩)
        rw [needsClassClosure_iff]
        rintro ⟨⟨kind, -⟩, -⟩
        simp [kind, ScopeKind.isFunctionLike] at functionLike
      have isGlobal : name ∈ builder.globalDecl := by
        by_contra notGlobal
        exact isLocal (mem_localNames.mpr ⟨functionLike, bound, notGlobal, notNonlocal⟩)
      simp [classify, noSlot, List.idxOf?_eq_none_iff.mpr isFree, isGlobal]

theorem exists_name_of_classOf {nameClass : NameClass}
    (h : (builder.scopeInfo enclosing needed children).classOf name = some nameClass) :
    builder.classify enclosing needed name = nameClass := by
  obtain ⟨symbol, found, rfl⟩ := Option.map_eq_some_iff.mp h
  rw [symbol_scopeInfo found]
  rfl

end ScopeBuilder

/-- What lowering relies on when it looks at the classes of names. -/
structure Classified (info : ScopeInfo) : Prop where
  /-- A class or module has no local slots. -/
  noSlots : info.kind.isFunctionLike = false → ∀ name,
    (∀ slot, info.classOf name ≠ some (.local slot)) ∧
      ∀ localSlot cellSlot, info.classOf name ≠ some (.cell localSlot cellSlot)
  module : info.kind = .module → ∀ name slot, info.classOf name ≠ some (.free slot)
  bound : info.kind.isFunctionLike = true → ∀ name symbol, info.symbol name = some symbol →
    symbol.isBound = true →
    (∃ slot, symbol.nameClass = .local slot) ∨
    (∃ localSlot cellSlot, symbol.nameClass = .cell localSlot cellSlot) ∨
    (∃ slot, symbol.nameClass = .free slot) ∧ symbol.isNonlocal = true ∨
    symbol.nameClass = .global true
  cell : ∀ name localSlot cellSlot, info.classOf name = some (.cell localSlot cellSlot) →
    info.cellSlotForLocal localSlot = some cellSlot
  localOnly : ∀ name slot, info.classOf name = some (.local slot) → info.cellSlotForLocal slot = none

theorem cellSlotForLocal_eq_some {info : ScopeInfo} {slot : LocalId} {cell : CellId}
    (h : info.cellSlotForLocal slot = some cell) :
    ∃ name ∈ info.cellVars, info.classOf name = some (.cell slot cell) := by
  obtain ⟨name, mem, found⟩ := List.exists_of_findSome?_eq_some h
  refine ⟨name, mem, ?_⟩
  split at found
  · next same =>
    split_ifs at found with slots
    cases found
    rw [same, slots]
  · cases found

theorem classified_of_finalizeScope {enclosing : List String}
    {info : ScopeInfo} (h : finalizeScope builder enclosing = .ok info)
    (top : builder.kind = .module → enclosing = []) : Classified info := by
  have noFree (kind : builder.kind = .module) (name : String) : ¬info.IsFree name := by
    intro free
    have enclosed := freeVars_subset builder h ((isFree_iff_mem_freeVars h).mp free)
    rw [top kind] at enclosed
    exact nomatch enclosed
  obtain ⟨-, children, rfl, -⟩ := finalizeScope_ok h
  have slot {name : String} {slot : ℕ}
      (found : (builder.scopeInfo enclosing (namesNeededByChildren children) children).classOf name =
        some (.local slot)) :
      slotOf? builder.assignLocalSlots name = some slot ∧
        name ∉ builder.cellNames (namesNeededByChildren children) :=
    ScopeBuilder.slotOf?_of_classify_local (ScopeBuilder.exists_name_of_classOf found)
  have cellSlot {name : String} {localSlot cellSlot : ℕ}
      (found : (builder.scopeInfo enclosing (namesNeededByChildren children) children).classOf name =
        some (.cell localSlot cellSlot)) :
      slotOf? builder.assignLocalSlots name = some localSlot :=
    ScopeBuilder.slotOf?_of_classify_cell (ScopeBuilder.exists_name_of_classOf found)
  constructor
  case noSlots =>
    intro kind name
    have none : ¬(slotOf? builder.assignLocalSlots name).isSome = true := by
      rw [ScopeBuilder.slotOf?_isSome, ScopeBuilder.mem_localNames]
      exact fun isLocal ↦ Bool.false_ne_true (kind.symm.trans isLocal.1)
    exact ⟨fun _ found ↦ none (by simp [(slot found).1]),
      fun _ _ found ↦ none (by simp [cellSlot found])⟩
  case module => exact fun kind name slot found ↦ noFree kind name ⟨slot, found⟩
  case bound =>
    intro functionLike name symbol found bound
    rw [ScopeBuilder.symbol_scopeInfo found] at bound ⊢
    simp only [ScopeBuilder.symbolInfo, decide_eq_true_eq] at bound ⊢
    exact ScopeBuilder.classify_bound functionLike bound
  case cell =>
    intro name localSlot cell found
    have mem : name ∈ builder.cellNames (namesNeededByChildren children) :=
      (ScopeBuilder.classify_cell_iff.mp ⟨_, _, ScopeBuilder.exists_name_of_classOf found⟩).2
    cases other : (builder.scopeInfo enclosing (namesNeededByChildren children)
        children).cellSlotForLocal localSlot with
    | none =>
      have missing := List.findSome?_eq_none_iff.mp other name mem
      simp [found] at missing
    | some cell' =>
      obtain ⟨name', -, found'⟩ := cellSlotForLocal_eq_some other
      obtain rfl := slotOf?_inj builder.slotsIndexed (cellSlot found) (cellSlot found')
      rw [found] at found'
      cases found'
      rfl
  case localOnly =>
    intro name localSlot found
    cases other : (builder.scopeInfo enclosing (namesNeededByChildren children)
        children).cellSlotForLocal localSlot with
    | none => rfl
    | some cell =>
      obtain ⟨name', mem, found'⟩ := cellSlotForLocal_eq_some other
      obtain rfl := slotOf?_inj builder.slotsIndexed (slot found).1 (cellSlot found')
      exact absurd mem (slot found).2

/-! ## Agreement -/

section Agreement

variable {info : ScopeInfo} {name : String} {symbol : SymbolInfo} {value : Value}

/-- A scope that is neither a module nor a class is function-like. -/
theorem isFunctionLike_of_not (notGlobal : info.isGlobalName name = false)
    (notClass : info.isClass = false) : info.kind.isFunctionLike = true := by
  simp only [ScopeInfo.isGlobalName, ScopeInfo.isModule, Bool.or_eq_false_iff,
    decide_eq_false_iff_not] at notGlobal
  simp only [ScopeInfo.isClass, decide_eq_false_iff_not] at notClass
  cases kind : info.kind <;> simp_all [ScopeKind.isFunctionLike]

theorem location?_load (h : Classified info) :
    location? (info.rewriteCellLocalAccess (info.lowerNameLoad name)) = some (info.location name) := by
  cases global : info.isGlobalName name with
  | true =>
    have toGlobals : location? (info.rewriteCellLocalAccess (info.lowerNameLoad name)) =
        some (.moduleGlobal name) := by
      simp only [ScopeInfo.lowerNameLoad, global, Bool.not_true, Bool.and_false]
      rcases Bool.or_eq_true_iff.mp global with module | explicit
      · have kind : info.kind = .module := by simpa [ScopeInfo.isModule] using module
        have noSlots := h.noSlots (by simp [kind, ScopeKind.isFunctionLike]) name
        have noFree := h.module kind name
        cases found : info.classOf name with
        | none => simp [ScopeInfo.rewriteCellLocalAccess, location?]
        | some nameClass => cases nameClass <;> simp_all [ScopeInfo.rewriteCellLocalAccess, location?]
      · simp [of_decide_eq_true explicit, ScopeInfo.rewriteCellLocalAccess, location?]
    rw [toGlobals, ScopeInfo.location, if_pos global]
  | false =>
    cases isClass : info.isClass with
    | true =>
      cases deref : info.classDerefCell name <;>
        simp [ScopeInfo.lowerNameLoad, ScopeInfo.location, global, isClass, deref,
          ScopeInfo.rewriteCellLocalAccess, location?]
    | false =>
      simp only [ScopeInfo.lowerNameLoad, ScopeInfo.location, global, isClass, Bool.false_and,
        Bool.false_eq_true, if_false]
      cases found : info.classOf name with
      | none => simp [ScopeInfo.rewriteCellLocalAccess, location?]
      | some nameClass =>
        cases nameClass with
        | «local» slot =>
          simp [ScopeInfo.rewriteCellLocalAccess, location?, h.localOnly name slot found]
        | _ => simp [ScopeInfo.rewriteCellLocalAccess, location?]

variable (h : Classified info) (found : info.symbol name = some symbol)
  (bound : symbol.isBound = true)
include h found bound

/-- The stores and deletes that follow the classification, for a name that the scope binds. -/
theorem location?_byClass (value : Value) :
    location? (info.rewriteCellLocalAccess (info.storeByClass name value)) = some (info.location name) ∧
    location? (info.rewriteCellLocalAccess (info.lowerDeleteName name)) = some (info.location name) ∧
    location? (info.rewriteCellLocalAccess (info.lowerAugTarget name value).1) =
      some (info.location name) ∧
    location? (info.rewriteCellLocalAccess (info.lowerAugTarget name value).2) =
      some (info.location name) := by
  cases global : info.isGlobalName name with
  | true =>
    simp [ScopeInfo.storeByClass, ScopeInfo.lowerDeleteName, ScopeInfo.lowerAugTarget,
      ScopeInfo.location, global, ScopeInfo.rewriteCellLocalAccess, location?]
  | false =>
    cases isClass : info.isClass with
    | true =>
      cases deref : info.classDerefCell name <;>
        simp [ScopeInfo.storeByClass, ScopeInfo.lowerDeleteName, ScopeInfo.lowerAugTarget,
          ScopeInfo.location, global, isClass, deref, ScopeInfo.rewriteCellLocalAccess, location?]
    | false =>
      have same : info.classOf name = some symbol.nameClass := by simp [ScopeInfo.classOf, found]
      simp only [ScopeInfo.storeByClass, ScopeInfo.lowerDeleteName, ScopeInfo.lowerAugTarget,
        ScopeInfo.location, global, isClass, Bool.false_eq_true, if_false, same]
      have functionLike := isFunctionLike_of_not global isClass
      rcases h.bound functionLike name symbol found bound with
        ⟨slot, isLocal⟩ | ⟨slot, cell, isCell⟩ | ⟨⟨slot, isFree⟩, -⟩ | isGlobal
      · simp [isLocal, ScopeInfo.rewriteCellLocalAccess, location?,
          h.localOnly name slot (same.trans (congrArg some isLocal))]
      · simp [isCell, ScopeInfo.rewriteCellLocalAccess, location?]
      · simp [isFree, ScopeInfo.rewriteCellLocalAccess, location?]
      · simp [ScopeInfo.isGlobalName, same, isGlobal] at global

/-- The stores that look for a local slot only, for a name that the scope binds. -/
theorem location?_bySlot :
    location? (info.rewriteCellLocalAccess (info.storeBySlot name value)) =
      some (info.location name) ↔ ¬symbol.isOuterCell := by
  have same : info.classOf name = some symbol.nameClass := by simp [ScopeInfo.classOf, found]
  cases global : info.isGlobalName name with
  | true =>
    have notOuter : ¬symbol.isOuterCell := by
      rintro ⟨-, slot, isFree⟩
      rcases Bool.or_eq_true_iff.mp global with module | explicit
      · have kind : info.kind = .module := by simpa [ScopeInfo.isModule] using module
        exact h.module kind name slot (same.trans (congrArg some isFree))
      · simp [same, isFree] at explicit
    simp [ScopeInfo.storeBySlot, ScopeInfo.location, global, notOuter,
      ScopeInfo.rewriteCellLocalAccess, location?]
  | false =>
    cases isClass : info.isClass with
    | true =>
      have deref : info.classDerefCell name = none ↔ ¬symbol.isOuterCell := by
        unfold ScopeInfo.classDerefCell SymbolInfo.isOuterCell
        cases nameClass : symbol.nameClass <;> simp [found, bound, nameClass]
      rw [← deref]
      cases cell : info.classDerefCell name <;>
        simp [ScopeInfo.storeBySlot, ScopeInfo.localSlot, ScopeInfo.location, global, isClass,
          ScopeInfo.rewriteCellLocalAccess, location?, cell]
    | false =>
      simp only [ScopeInfo.storeBySlot, ScopeInfo.localSlot, ScopeInfo.location, global, isClass,
        Bool.false_eq_true, if_false, same]
      have functionLike := isFunctionLike_of_not global isClass
      rcases h.bound functionLike name symbol found bound with
        ⟨slot, isLocal⟩ | ⟨slot, cell, isCell⟩ | ⟨⟨slot, isFree⟩, nonlocal⟩ | isGlobal
      · simp [isLocal, SymbolInfo.isOuterCell, ScopeInfo.rewriteCellLocalAccess, location?,
          h.localOnly name slot (same.trans (congrArg some isLocal))]
      · simp [isCell, SymbolInfo.isOuterCell, ScopeInfo.rewriteCellLocalAccess, location?,
          h.cell name slot cell (same.trans (congrArg some isCell))]
      · simp [isFree, SymbolInfo.isOuterCell, nonlocal, ScopeInfo.rewriteCellLocalAccess, location?]
      · simp [ScopeInfo.isGlobalName, same, isGlobal] at global

end Agreement

/-- In an accepted module an access to a name goes to the location that the classification of the
name gives it, unless it is a class definition, an import or an exception handler that binds a name
declared nonlocal. -/
theorem access_agrees_iff {body : List Stmt} {root : ScopeInfo} (h : analyzeModule body = .ok root)
    {info : ScopeInfo} {outer : List ScopeInfo} (chain : Chain root (info :: outer)) {name : String}
    {symbol : SymbolInfo} (found : info.symbol name = some symbol) {access : Access}
    (occurs : access.occurs symbol = true) (value : Value) :
    location? (access.inst info name value) = some (info.location name) ↔
      ¬(access.storesBySlot = true ∧ symbol.isOuterCell) := by
  obtain ⟨start, scanned, finalized⟩ := Effect.ok_of_bind h
  have nested : start.Nested := (scanBody_scans body scanned (.of_no_inner rfl)).1
  obtain ⟨_, _, builder, enclosing, same, -, scope, top⟩ := chain.finalized nested finalized
  cases same
  have classified := classified_of_finalizeScope scope top
  cases access with
  | load =>
    simp only [Access.storesBySlot, Bool.false_eq_true, false_and, not_false_eq_true, iff_true]
    exact location?_load classified
  | store | augLoad | augStore | delete | functionDef =>
    have agrees := location?_byClass classified found occurs value
    simp only [Access.storesBySlot, Bool.false_eq_true, false_and, not_false_eq_true, iff_true]
    first
      | exact agrees.1
      | exact agrees.2.1
      | exact agrees.2.2.1
      | exact agrees.2.2.2
  | classDef | import_ | exceptAs =>
    simp only [Access.storesBySlot, true_and]
    exact location?_bySlot classified found occurs

/-! ## An import of a nonlocal name -/

/-- In a function with a variable `x`, `def g(): nonlocal x; import os as x; return x`. -/
def nonlocalImportModule : List Stmt :=
  [.functionDef ⟨0, 80⟩ false [] "f" [] (.mk [] [] none [] none) none
    [.assign [.name "x" .store] (.literal "1"),
      .functionDef ⟨20, 80⟩ false [] "g" [] (.mk [] [] none [] none) none
        [.nonlocal ["x"], .import_ [⟨"os", some "x"⟩], .ret (some (.name "x" .load))]]]

/-- The scope of `g`, with what lowering does to `x` there. -/
theorem nonlocalImportModule_scope :
    ∃ root info outer symbol, analyzeModule nonlocalImportModule = .ok root ∧
      Chain root (info :: outer) ∧ info.symbol "x" = some symbol ∧
      symbol.isUsed = true ∧ symbol.isBound = true ∧
      location? (Access.load.inst info "x" 0) = some (.cell 0) ∧
      location? (Access.import_.inst info "x" 0) = some (.namespace "x") := by
  obtain ⟨root, info, outer, analyzed, chain, holds⟩ := exists_chain nonlocalImportModule [0, 0]
    (fun info _ ↦ (info.symbol "x").any fun symbol ↦ symbol.isUsed && symbol.isBound &&
      location? (Access.load.inst info "x" 0) = some (.cell 0) &&
      location? (Access.import_.inst info "x" 0) = some (.namespace "x")) (by decide)
  obtain ⟨symbol, found, holds⟩ := (Option.any_eq_true _ _).mp holds
  simp only [Bool.and_eq_true, decide_eq_true_eq] at holds
  obtain ⟨⟨⟨used, bound⟩, load⟩, store⟩ := holds
  exact ⟨root, info, outer, symbol, analyzed, chain, found, used, bound, load, store⟩

/-- The import stores into the namespace, while `return x` reads the cell of the enclosing
function. -/
theorem nonlocal_import_disagrees :
    ¬∀ body root, analyzeModule body = .ok root → ∀ info outer, Chain root (info :: outer) →
      ∀ name symbol, info.symbol name = some symbol → ∀ access access' : Access,
      access.occurs symbol = true → access'.occurs symbol = true → ∀ value,
      location? (access.inst info name value) = location? (access'.inst info name value) := by
  intro agree
  obtain ⟨root, info, outer, symbol, analyzed, chain, found, used, bound, load, store⟩ :=
    nonlocalImportModule_scope
  have same := agree _ root analyzed info outer chain "x" symbol found .load .import_ used bound 0
  simp [load, store] at same

theorem access_agrees_iff_nonlocal_import :
    ∃ root info outer symbol, analyzeModule nonlocalImportModule = .ok root ∧
      Chain root (info :: outer) ∧ info.symbol "x" = some symbol ∧
      (location? (Access.import_.inst info "x" 0) = some (info.location "x") ↔
        ¬(Access.import_.storesBySlot = true ∧ symbol.isOuterCell)) := by
  obtain ⟨root, info, outer, symbol, analyzed, chain, found, -, bound, -, -⟩ :=
    nonlocalImportModule_scope
  exact ⟨root, info, outer, symbol, analyzed, chain, found,
    access_agrees_iff analyzed chain found (show Access.import_.occurs symbol = true from bound) 0⟩

end Pon.Scope
