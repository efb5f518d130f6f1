import Mathlib.Data.List.Nodup
import Pon.Scope.Activation

/-!
# Unbound variables

A run over the places of any number of activations keeps the place of every variable in step with
what the variable is bound to, save that something is left in the places of some unbound variables. So
a read detects that a variable is unbound exactly if nothing is left there, and `locals()` is right
exactly if the bound variables are the parameters and the names that an assignment lowered earlier
stores.
-/

namespace Pon.Scope

open Ast Ir

/-! ## Slots and cells of an analyzed scope -/

/-- What activations rely on in the slots and cells of a scope. -/
structure Slotted (info : ScopeInfo) : Prop where
  classified : Classified info
  functionLike : ∀ slot ∈ info.locals, info.kind.isFunctionLike = true
  classOf : ∀ slot ∈ info.locals, info.classOf slot.name = some (.local slot.slot) ∨
    ∃ cell, info.classOf slot.name = some (.cell slot.slot cell)
  slotOf : ∀ {name localSlot}, (info.classOf name = some (.local localSlot) ∨
    ∃ cell, info.classOf name = some (.cell localSlot cell)) →
    slotOf? info.locals name = some localSlot
  indexed : SlotsIndexed info.locals
  cells : ∀ {name localSlot cell}, info.classOf name = some (.cell localSlot cell) →
    cell < info.cellVars.length
  free : ∀ {name slot}, info.classOf name = some (.free slot) → slot < info.freeVars.length
  made : ∀ name ∈ info.cellVars,
    (∃ symbol localSlot cell, info.symbol name = some symbol ∧
      symbol.nameClass = .cell localSlot cell) ∨
    info.needsClassClosure = true ∧ name = "__class__"

namespace ScopeBuilder

variable {builder : ScopeBuilder} {enclosing needed : List String} {name : String}

variable {slots : List LocalSlotInfo} {slot : LocalSlotInfo} {localSlot : ℕ}

theorem mem_localNames_of_slot : ∀ slot ∈ builder.assignLocalSlots, slot.name ∈ builder.localNames := by
  refine assignLocalSlots_induction
    (motive := fun slots ↦ ∀ slot ∈ slots, slot.name ∈ builder.localNames) (by simp)
    fun slots name _ isLocal _ h slot mem ↦ ?_
  rcases List.mem_append.mp mem with old | added
  · exact h slot old
  · obtain rfl := List.mem_singleton.mp added
    exact isLocal

theorem names_nodup (builder : ScopeBuilder) :
    (builder.assignLocalSlots.map LocalSlotInfo.name).Nodup := by
  refine assignLocalSlots_induction (motive := fun slots ↦ (slots.map LocalSlotInfo.name).Nodup)
    List.nodup_nil fun slots name _ _ new h ↦ ?_
  rw [List.map_append, List.nodup_append]
  refine ⟨h, by simp, fun other old last added same ↦ ?_⟩
  obtain ⟨slot, mem, rfl⟩ := List.mem_map.mp old
  obtain rfl := List.mem_singleton.mp added
  exact new slot mem same

theorem slotOf?_of_mem (mem : slot ∈ builder.assignLocalSlots) :
    slotOf? builder.assignLocalSlots slot.name = some slot.slot := by
  obtain ⟨found, isFound⟩ := Option.isSome_iff_exists.mp
    (slotOf?_isSome.mpr (mem_localNames_of_slot _ mem))
  obtain ⟨other, there, rfl⟩ := Option.map_eq_some_iff.mp isFound
  have same : other.name = slot.name := by simpa using List.find?_some there
  obtain rfl := List.inj_on_of_nodup_map builder.names_nodup (List.mem_of_find?_eq_some there) mem same
  exact isFound

theorem classify_local (slot : slotOf? builder.assignLocalSlots name = some localSlot) :
    builder.classify enclosing needed name = .local localSlot ∨
      ∃ cell, builder.classify enclosing needed name = .cell localSlot cell := by
  unfold classify
  cases index : (builder.cellNames needed).idxOf? name with
  | none => simp [slot]
  | some cell => simp [slot]

theorem cell_lt {cell : ℕ} (h : builder.classify enclosing needed name = .cell localSlot cell) :
    cell < (builder.cellNames needed).length := by
  unfold classify at h
  split at h <;> try split_ifs at h
  all_goals cases h
  next _ index => exact (List.idxOf?_eq_some_iff.mp index).1

theorem free_lt {slot : ℕ} (h : builder.classify enclosing needed name = .free slot) :
    slot < (builder.freeNames enclosing needed).length := by
  unfold classify at h
  split at h <;> try split_ifs at h
  all_goals cases h
  next index => exact (List.idxOf?_eq_some_iff.mp index).1

theorem symbol_of_mem {children : List ScopeInfo} (mem : name ∈ builder.allNames needed) :
    ∃ symbol, (builder.scopeInfo enclosing needed children).symbol name = some symbol ∧
      symbol.nameClass = builder.classify enclosing needed name :=
  Option.map_eq_some_iff.mp (classOf_scopeInfo mem)

end ScopeBuilder

variable {info : ScopeInfo}

theorem slotted_of_finalizeScope {builder : ScopeBuilder} {enclosing : List String}
    (h : finalizeScope builder enclosing = .ok info) (top : builder.kind = .module → enclosing = []) :
    Slotted info := by
  have classified := classified_of_finalizeScope h top
  obtain ⟨-, children, rfl, -⟩ := finalizeScope_ok h
  have localName {slot : LocalSlotInfo} (mem : slot ∈ builder.assignLocalSlots) :=
    ScopeBuilder.mem_localNames_of_slot _ mem
  constructor
  case classified => exact classified
  case functionLike => exact fun slot mem ↦ (ScopeBuilder.mem_localNames.mp (localName mem)).1
  case classOf =>
    intro slot mem
    rw [ScopeBuilder.classOf_scopeInfo (ScopeBuilder.mem_allNames_of_local (localName mem))]
    simpa using ScopeBuilder.classify_local (ScopeBuilder.slotOf?_of_mem mem)
  case slotOf =>
    rintro name localSlot (found | ⟨cell, found⟩)
    · exact (ScopeBuilder.slotOf?_of_classify_local (ScopeBuilder.exists_name_of_classOf found)).1
    · exact ScopeBuilder.slotOf?_of_classify_cell (ScopeBuilder.exists_name_of_classOf found)
  case indexed => exact builder.slotsIndexed
  case cells =>
    exact fun found ↦ ScopeBuilder.cell_lt (ScopeBuilder.exists_name_of_classOf found)
  case free => exact fun found ↦ ScopeBuilder.free_lt (ScopeBuilder.exists_name_of_classOf found)
  case made =>
    intro name mem
    rcases ScopeBuilder.mem_cellNames.mp mem with ⟨-, isLocal⟩ | implicit
    · obtain ⟨localSlot, cell, isCell⟩ := ScopeBuilder.classify_cell_iff.mpr ⟨isLocal, mem⟩
      obtain ⟨symbol, found, same⟩ :=
        ScopeBuilder.symbol_of_mem (ScopeBuilder.mem_allNames_of_local isLocal)
      exact .inl ⟨symbol, localSlot, cell, found, same.trans isCell⟩
    · exact .inr implicit

/-! ## Accesses to variables -/

/-- Only local slots and cells are places of variables. -/
def Location.IsVariable : Location → Prop
  | .localSlot _ | .cell _ => True
  | .moduleGlobal _ | .namespace _ => False

/-- The instruction of an access to a variable at a known location. -/
def Access.instAt (access : Access) (value : Value) : Location → InstKind Value
  | .localSlot slot =>
    match access with
    | .load | .augLoad => .loadLocal slot
    | .delete => .deleteLocal slot
    | _ => .storeLocal slot value
  | .cell cell =>
    match access with
    | .load | .augLoad => .loadCell cell
    | .delete => .deleteCell cell
    | _ => .storeCell cell value
  | .moduleGlobal name | .namespace name => .loadGlobal name

/-- An instruction that does what the access does, if it is about a variable. -/
def Access.Fits (access : Access) (value : Value) (inst : InstKind Value) : Prop :=
  ∀ location, location? inst = some location → location.IsVariable → inst = access.instAt value location

section Fits

variable {info : ScopeInfo} {name : String} {value : Value} {access : Access}

theorem Access.Fits.rewrite {inst : InstKind Value} (h : access.Fits value inst) :
    access.Fits value (info.rewriteCellLocalAccess inst) := by
  unfold ScopeInfo.rewriteCellLocalAccess
  split
  iterate 3
    · generalize info.cellSlotForLocal _ = cell
      cases cell with
      | none => exact h
      | some cell =>
        have same := h (.localSlot _) rfl trivial
        clear h
        cases access <;> simp_all [Fits, instAt, location?]
  · exact h

/-- An access to a name compiles to the instruction that the location of the name calls for. -/
theorem inst_fits : access.Fits value (access.inst info name value) := by
  refine .rewrite ?_
  cases access with
  | load =>
    simp only [ScopeInfo.lowerNameLoad]
    split <;> split <;> simp [Access.Fits, Access.instAt, location?, Location.IsVariable]
  | store | functionDef =>
    simp only [ScopeInfo.storeNameValue, ScopeInfo.storeFunctionValue, ScopeInfo.storeByClass]
    split <;> [skip; split <;> split] <;>
      simp [Access.Fits, Access.instAt, location?, Location.IsVariable]
  | augLoad | augStore =>
    simp only [ScopeInfo.lowerAugTarget]
    split <;> [skip; split <;> split] <;>
      simp [Access.Fits, Access.instAt, location?, Location.IsVariable]
  | delete =>
    simp only [ScopeInfo.lowerDeleteName]
    split <;> [skip; split <;> split] <;>
      simp [Access.Fits, Access.instAt, location?, Location.IsVariable]
  | classDef | import_ | exceptAs =>
    simp only [ScopeInfo.storeClassValue, ScopeInfo.storeImportBinding,
      ScopeInfo.storeHandlerNameValue, ScopeInfo.storeBySlot]
    split <;> [skip; split] <;>
      simp [Access.Fits, Access.instAt, location?, Location.IsVariable]

end Fits

/-! ## Contents -/

namespace World

variable {w : World}

/-- What is stored in the place of a variable. -/
def stored (w : World) : Var → Option (Option Obj)
  | .localSlot index slot => w.activations[index]?.map (Activation.locals · slot)
  | .cell address => w.cells[address]?

/-- Store into the place of a variable. -/
def put (w : World) (var : Var) (content : Option Obj) : World :=
  match var with
  | .localSlot index slot =>
    { w with
      activations := w.activations.modify index fun a ↦
        { a with locals := Function.update a.locals slot content } }
  | .cell address => { w with cells := w.cells.set address content }

theorem stored_put (w : World) (var other : Var) (content : Option Obj) :
    (w.put var content).stored other =
      if other = var then (w.stored other).map fun _ ↦ content else w.stored other := by
  cases var with
  | localSlot index slot =>
    cases other with
    | cell address => simp [put, stored]
    | localSlot index' slot' =>
      simp only [put, stored, List.getElem?_modify, Var.localSlot.injEq]
      by_cases same : index = index'
      · subst same
        by_cases slots : slot' = slot
        · subst slots
          cases w.activations[index]? <;> simp
        · cases w.activations[index]? <;> simp [slots]
      · simp [same, Ne.symm same]
  | cell address =>
    cases other with
    | localSlot index slot => simp [put, stored]
    | cell address' =>
      simp only [put, stored, List.getElem?_set, Var.cell.injEq]
      by_cases same : address = address'
      · subst same
        by_cases inside : address < w.cells.length
        · simp [inside]
        · simp [inside]
      · simp [same, Ne.symm same]

section Exec

variable {index : ℕ} {a : Activation} {location : Location} {var : Var}

variable {access : Access} (here : w.activations[index]? = some a)
include here

section

variable (place : a.place index location = some var) (reads : access = .load ∨ access = .augLoad)
  (object : Obj)
include place reads

/-- A load from the location of a variable finds what is stored in its place. -/
theorem content_instAt :
    w.content a (access.instAt object location) = (w.stored var).join := by
  cases location with
  | localSlot slot =>
    cases place
    rcases reads with rfl | rfl <;> simp [Access.instAt, content, stored, here]
  | cell cell =>
    obtain ⟨address, found, rfl⟩ := Option.map_eq_some_iff.mp place
    rcases reads with rfl | rfl <;> simp [Access.instAt, content, stored, found]
  | moduleGlobal name | «namespace» name => cases place

theorem exec_load :
    w.exec index a (access.instAt object location) = ((w.stored var).join.elim .unbound .value, w) := by
  rw [← content_instAt here place reads object]
  cases location with
  | localSlot slot => rcases reads with rfl | rfl <;> rfl
  | cell cell => rcases reads with rfl | rfl <;> rfl
  | moduleGlobal name | «namespace» name => cases place

end

theorem setLocals_eq_put (slot : LocalId)
    (content : Option Obj) :
    w.setLocals index a (Function.update a.locals slot content) =
      w.put (.localSlot index slot) content := by
  obtain ⟨inside, rfl⟩ := List.getElem?_eq_some_iff.mp here
  simp only [setLocals, put, World.mk.injEq, and_self, and_true]
  refine List.ext_getElem? fun i ↦ ?_
  rw [List.getElem?_modify, List.getElem?_set]
  by_cases same : index = i
  · subst same
    simp [inside]
  · simp [same]

theorem exec_store (place : a.place index location = some var)
    (writes : access ≠ .load ∧ access ≠ .augLoad ∧ access ≠ .delete) (object : Obj) :
    (w.exec index a (access.instAt object location)).2 = w.put var (some object) := by
  obtain ⟨notLoad, notAugLoad, notDelete⟩ := writes
  cases location with
  | localSlot slot =>
    cases place
    rw [← setLocals_eq_put here]
    cases access <;> first | contradiction | rfl
  | cell cell =>
    obtain ⟨address, found, rfl⟩ := Option.map_eq_some_iff.mp place
    cases access <;> first | contradiction | simp [Access.instAt, exec, found, put]
  | moduleGlobal name | «namespace» name => cases place

theorem exec_delete (place : a.place index location = some var) (object : Obj) :
    (w.exec index a (Access.delete.instAt object location)).2 = w.put var none := by
  cases location with
  | localSlot slot =>
    cases place
    rw [← setLocals_eq_put here]
    cases held : a.locals slot with
    | some object => simp [Access.instAt, exec, held]
    | none =>
      -- a deletion that raises leaves the empty slot
      have same : w.setLocals index a (Function.update a.locals slot none) = w := by
        obtain ⟨inside, rfl⟩ := List.getElem?_eq_some_iff.mp here
        rw [← held, Function.update_eq_self, setLocals]
        exact congrArg (fun activations ↦ { w with activations }) (List.set_getElem_self inside)
      rw [same]
      simp [Access.instAt, exec, held]
  | cell cell =>
    obtain ⟨address, found, rfl⟩ := Option.map_eq_some_iff.mp place
    simp [Access.instAt, exec, found, put]
  | moduleGlobal name | «namespace» name => cases place

end Exec

/-- An access to a global or a namespace leaves the variables alone. -/
theorem exec_elsewhere {inst : InstKind Obj} {location : Location} (index : ℕ) (a : Activation)
    (there : location? inst = some location) (notVariable : ¬location.IsVariable) :
    w.exec index a inst = (.elsewhere, w) := by
  unfold location? at there
  unfold exec
  split at there <;> cases there <;> first | exact absurd trivial notVariable | rfl

end World

/-! ## Runs -/

/-- Scope analysis has recorded what the code of a body does with its names. -/
def Recorded (info : ScopeInfo) (sites : List Site) : Prop :=
  ∀ site ∈ sites,
    match site with
    | .access access name => (info.symbol name).any access.occurs = true
    | .handlerEnd _ name => (info.symbol name).any SymbolInfo.isBound = true
    | .localsSnapshot => info.kind.isFunctionLike = true

/-- A body that is entered is a scope of the module, and its closure has a cell for each free
variable. -/
def Legal (root : ScopeInfo) (w : World) : World.Event → Prop
  | .enter info sites _ closure =>
    (∃ outer, Chain root (info :: outer)) ∧ Recorded info sites ∧
      closure.length = info.freeVars.length ∧ ∀ address ∈ closure, address < w.cells.length
  | .visit _ _ _ | .fillClassCell _ _ => True

/-- The access stores a nonlocal name with a routine that only looks for a local slot. -/
def MissesCell (info : ScopeInfo) (access : Access) (name : String) : Prop :=
  access.storesBySlot = true ∧ ∃ symbol, info.symbol name = some symbol ∧ symbol.isOuterCell

/-- The place stores no nonlocal name with such a routine. -/
def Site.StoresToCells (info : ScopeInfo) : Site → Prop
  | .access form name => ¬MissesCell info form name
  | .handlerEnd isStar name => isStar = true → ¬MissesCell info .exceptAs name
  | .localsSnapshot => True

def StoresToCells (w : World) : World.Event → Prop
  | .visit index n _ => ∀ a site, w.activations[index]? = some a → a.sites[n]? = some site →
      site.StoresToCells a.info
  | .enter _ _ _ _ | .fillClassCell _ _ => True

/-- The worlds that a run over the scopes of a module reaches, as long as no class definition, import
or exception handler binds a nonlocal name. -/
inductive Reached (root : ScopeInfo) : World → Prop
  | initial : Reached root .initial
  | step {w next : World} {event : World.Event} {result : VisitResult} : Reached root w →
      Legal root w event → StoresToCells w event → w.step event = some (result, next) →
      Reached root next

/-- The law of a visit: a read of a variable gives the object to which the variable is bound, or
raises if there is none, and `locals()` gives the mapping of the bound variables. -/
def Detects (w : World) (index : ℕ) (a : Activation) (site : Site) (result : VisitResult) : Prop :=
  match site with
  | .access access name =>
    access = .load ∨ access = .augLoad → (a.info.location name).IsVariable →
      ∃ var, a.varOf index name = some var ∧ result = (w.bound var).elim .unbound .value
  | .handlerEnd _ _ => True
  | .localsSnapshot => ∃ items, result = .mapping items ∧
      ∀ name object, (name, object) ∈ items ↔
        ∃ var, a.varOf index name = some var ∧ w.bound var = some object

/-- The name is a parameter, or a local name that an assignment stores before the place number `n`. -/
def Activation.Listed (a : Activation) (n : ℕ) (name : String) : Prop :=
  ∃ slot ∈ a.info.locals, slot.name = name ∧
    (slot.isParameter = true ∨ .access .store name ∈ a.sites.take n)

/-- Neither a prologue nor the end of a handler has left anything in a variable that is read, and at a
call of `locals()` the bound variables are the listed ones. -/
def Conforms (w : World) (index : ℕ) (a : Activation) (n : ℕ) (site : Site) : Prop :=
  match site with
  | .access access name =>
    access = .load ∨ access = .augLoad → ∀ var, a.varOf index name = some var → w.leftover var = none
  | .handlerEnd _ _ => True
  | .localsSnapshot => ∀ name,
      (∃ var, a.varOf index name = some var ∧ (w.bound var).isSome = true) ↔ a.Listed n name

/-! ## The invariant -/

structure Activation.WellFormed (a : Activation) (cells : ℕ) : Prop where
  slotted : Slotted a.info
  recorded : Recorded a.info a.sites
  ownCells : a.ownCells.length = a.info.cellVars.length
  closure : a.closure.length = a.info.freeVars.length
  addresses : ∀ address, address ∈ a.ownCells ∨ address ∈ a.closure → address < cells

/-- The place of every variable stores what the law says, or what is left there. -/
structure Synced (w : World) : Prop where
  stored : ∀ {var content}, w.stored var = some content → content = w.held var
  unbound : ∀ {var object}, w.leftover var = some object → w.bound var = none
  activations : ∀ a ∈ w.activations, a.WellFormed w.cells.length

theorem synced_initial : Synced .initial where
  stored := by
    rintro (⟨index, slot⟩ | address) content found <;> simp [World.initial, World.stored] at found
  unbound := by simp [World.initial]
  activations := by simp [World.initial]

section Variables

variable {w : World} {index : ℕ} {a : Activation} {name : String} {value : Value}

variable {info : ScopeInfo}

theorem Slotted.cell_lt (h : Slotted info) {cell : CellId} (there : info.location name = .cell cell) :
    cell < info.cellVars.length + info.freeVars.length := by
  have free {slot : ℕ} (found : info.classOf name = some (.free slot)) :
      info.freeCell slot < info.cellVars.length + info.freeVars.length :=
    Nat.add_lt_add_left (h.free found) _
  unfold ScopeInfo.location at there
  split at there
  · cases there
  split at there
  · cases deref : info.classDerefCell name with
    | none => simp [deref] at there
    | some found =>
      simp only [deref, Option.elim_some, Location.cell.injEq] at there
      subst there
      unfold ScopeInfo.classDerefCell at deref
      split at deref
      · next symbol isSymbol =>
        split at deref
        · next slot isFree =>
          split_ifs at deref
          cases deref
          exact free (by simp [ScopeInfo.classOf, isSymbol, isFree])
        · cases deref
      · cases deref
  · split at there <;> cases there
    · next isCell => exact Nat.lt_add_right _ (h.cells isCell)
    · next isFree => exact free isFree

/-- Every name at a location of a variable stands for a variable with a place. -/
theorem Activation.WellFormed.exists_varOf (h : a.WellFormed w.cells.length)
    (here : w.activations[index]? = some a) (isVariable : (a.info.location name).IsVariable) :
    ∃ var, a.varOf index name = some var ∧ ∃ content, w.stored var = some content := by
  unfold varOf
  cases there : a.info.location name with
  | localSlot slot => exact ⟨_, rfl, a.locals slot, by simp [World.stored, here]⟩
  | cell cell =>
    have inside := h.slotted.cell_lt there
    have found : ∃ address, a.cellAddress cell = some address ∧ address < w.cells.length := by
      unfold cellAddress
      split
      · next own => exact ⟨_, List.getElem?_eq_getElem own, h.addresses _ (.inl (List.getElem_mem own))⟩
      · next notOwn =>
        have closed : cell - a.ownCells.length < a.closure.length := by
          rw [h.closure, h.ownCells]
          exact Nat.sub_lt_left_of_lt_add (h.ownCells ▸ Nat.le_of_not_lt notOwn) inside
        exact ⟨_, List.getElem?_eq_getElem closed, h.addresses _ (.inr (List.getElem_mem closed))⟩
    obtain ⟨address, found, inside⟩ := found
    exact ⟨.cell address, by simp [place, found], w.cells[address], by simp [World.stored, inside]⟩
  | moduleGlobal other | «namespace» other => simp [there, Location.IsVariable] at isVariable

variable {access : Access}

section

variable (h : Slotted info) (recorded : (info.symbol name).any access.occurs = true)
  (hits : ¬MissesCell info access name)
include h recorded hits

/-- Outside of `MissesCell` an access goes to the location of the name. -/
theorem Slotted.location?_inst

    (value : Value) :
    location? (access.inst info name value) = some (info.location name) := by
  obtain ⟨symbol, found, occurs⟩ := (Option.any_eq_true _ _).mp recorded
  cases access with
  | load => exact location?_load h.classified
  | store | functionDef => exact (location?_byClass h.classified found occurs value).1
  | delete => exact (location?_byClass h.classified found occurs value).2.1
  | augLoad => exact (location?_byClass h.classified found occurs value).2.2.1
  | augStore => exact (location?_byClass h.classified found occurs value).2.2.2
  | classDef | import_ | exceptAs =>
    exact (location?_bySlot h.classified found occurs).mpr fun outer ↦ hits ⟨rfl, symbol, found, outer⟩

/-- An access to a variable compiles to the instruction for its location. -/
theorem Slotted.inst_eq (isVariable : (info.location name).IsVariable) :
    access.inst info name value = access.instAt value (info.location name) :=
  inst_fits _ (h.location?_inst recorded hits value) isVariable

end

theorem varOf_eq_none (notVariable : ¬(a.info.location name).IsVariable) :
    a.varOf index name = none := by
  unfold Activation.varOf
  cases there : a.info.location name with
  | localSlot slot | cell cell => simp [there, Location.IsVariable] at notVariable
  | moduleGlobal other | «namespace» other => rfl

end Variables

section Steps

variable {w next : World} {index n : ℕ} {a : Activation} {site : Site} {object : Obj}
  {result : VisitResult}

/-- Store into the place of a variable and bind or clear it accordingly. -/
def World.assign (w : World) (var : Var) (object leftover : Option Obj) : World :=
  (w.put var (leftover.or object)).bind (some var) object leftover

theorem World.held_assign (w : World) (var other : Var) (object leftover : Option Obj) :
    (w.assign var object leftover).held other =
      if other = var then leftover.or object else w.held other := by
  have unchanged (content : Option Obj) : (w.put var content).leftover = w.leftover ∧
      (w.put var content).bound = w.bound := by
    cases var <;> exact ⟨rfl, rfl⟩
  unfold held assign bind
  by_cases same : other = var
  · subst same
    simp
  · simp [same, unchanged]

theorem Synced.assign (h : Synced w) (var : Var) {object leftover : Option Obj}
    (cleared : leftover.isSome = true → object = none) : Synced (w.assign var object leftover) where
  stored := by
    intro other content found
    have found : (w.put var (leftover.or object)).stored other = some content := found
    rw [World.stored_put] at found
    rw [World.held_assign]
    by_cases same : other = var
    · rw [if_pos same] at found
      obtain ⟨-, -, rfl⟩ := Option.map_eq_some_iff.mp found
      rw [if_pos same]
    · rw [if_neg same] at found
      rw [if_neg same]
      exact h.stored found
  unbound := by
    intro other object' holds
    simp only [World.assign, World.bind] at holds ⊢
    by_cases same : other = var
    · subst same
      rw [Function.update_self] at holds ⊢
      exact cleared (Option.isSome_of_eq_some holds)
    · rw [Function.update_of_ne same] at holds ⊢
      cases var <;> exact h.unbound holds
  activations := by
    cases var with
    | localSlot index slot =>
      intro a mem
      obtain ⟨i, found⟩ := List.mem_iff_getElem?.mp mem
      simp only [World.assign, World.bind, World.put, List.getElem?_modify] at found
      obtain ⟨old, isOld, rfl⟩ := Option.map_eq_some_iff.mp found
      have wellFormed := h.activations old (List.mem_of_getElem? isOld)
      split
      · exact { wellFormed with }
      · exact wellFormed
    | cell address =>
      intro a mem
      simpa [World.assign, World.bind, World.put] using h.activations a mem

/-- What stays in the place is what was there. -/
theorem Synced.leave (h : Synced w) (var : Option Var) : Synced (w.leave var) := by
  cases var with
  | none => exact h
  | some var =>
    have same (other : Var) : (w.leave (some var)).held other = w.held other := by
      unfold World.held World.leave World.bind
      by_cases same : other = var
      · subst same
        simp [World.held]
      · simp [same]
    refine ⟨fun {other _} found ↦ (h.stored found).trans (same other).symm, ?_, h.activations⟩
    intro other object holds
    simp only [World.leave, World.bind] at holds ⊢
    by_cases same : other = var
    · rw [same, Function.update_self]
    · rw [Function.update_of_ne same] at holds ⊢
      exact h.unbound holds

variable {name : String}

section

variable (here : w.activations[index]? = some a)
include here

theorem step_access {access : Access}
    (there : a.sites[n]? = some (.access access name)) :
    w.step (.visit index n object) =
      some ((w.exec index a (access.inst a.info name object)).1,
        (w.exec index a (access.inst a.info name object)).2.note access (a.varOf index name)
          object) := by
  simp [World.step, here, there]

theorem step_handlerEnd (there : a.sites[n]? = some (.handlerEnd true name)) :
    w.step (.visit index n object) =
      some ((w.exec index a (Access.exceptAs.inst a.info name noneObj)).1,
        (w.exec index a (Access.exceptAs.inst a.info name noneObj)).2.bind (a.varOf index name)
          none (some noneObj)) := by
  simp [World.step, here, there]

theorem step_localsSnapshot (there : a.sites[n]? = some .localsSnapshot) :
    w.step (.visit index n object) =
      some ((w.loadItems a (lowerLocalsSnapshot a.info a.sites n)).elim .unbound .mapping, w) := by
  simp [World.step, here, there]

end

/-- A visit changes nothing, the place of one variable together with its binding, or only the
binding. -/
theorem Synced.visit_cases (h : Synced w) (here : w.activations[index]? = some a)
    (there : a.sites[n]? = some site) (stores : site.StoresToCells a.info)
    (step : w.step (.visit index n object) = some (result, next)) :
    (next = w ∨ ∃ var object leftover, (leftover.isSome = true → object = none) ∧
      next = w.assign var object leftover) ∨ ∃ var, next = w.leave var := by
  have wellFormed := h.activations a (List.mem_of_getElem? here)
  have recorded := wellFormed.recorded site (List.mem_of_getElem? there)
  cases site with
  | access access name =>
    obtain ⟨-, rfl⟩ := Prod.mk.inj (Option.some.inj ((step_access here there).symm.trans step))
    by_cases isVariable : (a.info.location name).IsVariable
    · obtain ⟨var, isVar, -⟩ := wellFormed.exists_varOf here isVariable
      rw [wellFormed.slotted.inst_eq recorded stores isVariable, isVar]
      have write (writes : access ≠ .load ∧ access ≠ .augLoad ∧ access ≠ .delete) :=
        World.exec_store here isVar writes object
      left
      cases access with
      | load => exact .inl (by rw [World.exec_load here isVar (.inl rfl)]; rfl)
      | augLoad => exact .inl (by rw [World.exec_load here isVar (.inr rfl)]; rfl)
      | delete => exact .inr ⟨var, none, none, by simp, by rw [World.exec_delete here isVar]; rfl⟩
      | store | augStore | functionDef | classDef | import_ | exceptAs =>
        exact .inr ⟨var, some object, none, by simp, by rw [write (by simp)]; rfl⟩
    · have elsewhere := World.exec_elsewhere (w := w) index a
        (wellFormed.slotted.location?_inst recorded stores object) isVariable
      rw [elsewhere, varOf_eq_none isVariable]
      exact .inl (.inl (by cases access <;> rfl))
  | handlerEnd isStar name =>
    cases isStar with
    | false =>
      simp only [World.step, here, there, Option.some.injEq, Prod.mk.injEq] at step
      exact .inr ⟨_, step.2.symm⟩
    | true =>
      obtain ⟨-, rfl⟩ := Prod.mk.inj (Option.some.inj ((step_handlerEnd here there).symm.trans step))
      have recorded : (a.info.symbol name).any Access.exceptAs.occurs = true := recorded
      by_cases isVariable : (a.info.location name).IsVariable
      · obtain ⟨var, isVar, -⟩ := wellFormed.exists_varOf here isVariable
        rw [wellFormed.slotted.inst_eq recorded (stores rfl) isVariable, isVar,
          World.exec_store here isVar (by simp)]
        exact .inl (.inr ⟨var, none, some noneObj, by simp, rfl⟩)
      · have elsewhere := World.exec_elsewhere (w := w) index a
          (wellFormed.slotted.location?_inst recorded (stores rfl) noneObj) isVariable
        rw [elsewhere, varOf_eq_none isVariable]
        exact .inl (.inl rfl)
  | localsSnapshot =>
    obtain ⟨-, rfl⟩ := Prod.mk.inj (Option.some.inj ((step_localsSnapshot here there).symm.trans step))
    exact .inl (.inl rfl)

end Steps

section Enter

variable {w : World} {info : ScopeInfo} {args : LocalId → Obj}

theorem length_cellPrologue (h : Slotted info) (args : LocalId → Obj) :
    (World.cellPrologue info args).length = info.cellVars.length := by
  refine List.filterMap_length_eq_length.mpr fun name mem ↦ ?_
  rcases h.made name mem with ⟨symbol, localSlot, cell, found, isCell⟩ | ⟨closure, rfl⟩
  · cases symbol
    cases isCell
    simp [found]
  · split <;> simp [closure]

theorem Activation.WellFormed.mono {a : Activation} {cells cells' : ℕ} (h : a.WellFormed cells)
    (le : cells ≤ cells') : a.WellFormed cells' :=
  { h with addresses := fun address mem ↦ Nat.lt_of_lt_of_le (h.addresses address mem) le }

theorem Synced.enter (h : Synced w) {root : ScopeInfo} {sites : List Site} {closure : List Address}
    (legal : Legal root w (.enter info sites args closure)) (slotted : Slotted info) :
    Synced (w.enter info sites args closure) where
  stored := by
    rintro (⟨other, slot⟩ | address) content found
    · simp only [World.stored, World.enter] at found
      simp only [World.held, World.enter]
      rcases Nat.lt_trichotomy other w.activations.length with old | rfl | beyond
      · rw [List.getElem?_append_left old] at found
        have before : _ = w.held (.localSlot other slot) := h.stored found
        simpa [World.held, Nat.ne_of_lt old] using before
      · simpa using found.symm
      · rw [List.getElem?_eq_none (by simp; omega)] at found
        cases found
    · simp only [World.stored, World.enter] at found
      simp only [World.held, World.enter]
      rcases Nat.lt_or_ge address w.cells.length with old | fresh
      · rw [List.getElem?_append_left old] at found
        have before : _ = w.held (.cell address) := h.stored found
        simpa [World.held, old] using before
      · rw [List.getElem?_append_right fresh, List.getElem?_map] at found
        obtain ⟨cell, there, rfl⟩ := Option.map_eq_some_iff.mp found
        have notOld : ¬address < w.cells.length := Nat.not_lt.mpr fresh
        simp only [if_neg notOld, there]
        cases given : cell.2 <;> simp [Option.filter, given]
  unbound := by
    rintro (⟨other, slot⟩ | address) object holds
    · simp only [World.enter] at holds ⊢
      split at holds
      · cases holds
      · next old => rw [if_neg old, h.unbound holds]
    · simp only [World.enter] at holds ⊢
      split at holds
      · next old => rw [if_pos old, h.unbound holds]
      · next fresh =>
        obtain ⟨cell, there, -⟩ := Option.map_eq_some_iff.mp holds
        obtain ⟨there, empty⟩ := Option.filter_eq_some_iff.mp there
        simp only [Bool.not_eq_true'] at empty
        simp [fresh, there, empty]
  activations := by
    obtain ⟨-, recorded, closed, inside⟩ := legal
    intro a mem
    simp only [World.enter] at mem ⊢
    rcases List.mem_append.mp mem with old | new
    · exact (h.activations a old).mono (by simp)
    · obtain rfl := List.mem_singleton.mp new
      refine ⟨slotted, recorded, by simp [length_cellPrologue slotted], closed, ?_⟩
      rintro address (own | captured)
      · obtain ⟨i, isIndex, rfl⟩ := List.mem_map.mp own
        simp only [List.length_append, List.length_map]
        exact Nat.add_lt_add_left (List.mem_range.mp isIndex) _
      · exact Nat.lt_of_lt_of_le (inside address captured) (by simp)

end Enter

section Run

variable {body : List Stmt} {root : ScopeInfo} {w : World}

theorem slotted_of_chain (h : analyzeModule body = .ok root)
    {outer : List ScopeInfo} (chain : Chain root (info :: outer)) : Slotted info := by
  obtain ⟨start, scanned, finalized⟩ := Effect.ok_of_bind h
  have nested : start.Nested := (scanBody_scans body scanned (.of_no_inner rfl)).1
  obtain ⟨_, _, builder, enclosing, same, -, scope, top⟩ := chain.finalized nested finalized
  cases same
  exact slotted_of_finalizeScope scope top

theorem Synced.step (h : Synced w) (analyzed : analyzeModule body = .ok root)
    {event : World.Event} {result : VisitResult} {next : World} (legal : Legal root w event)
    (stores : StoresToCells w event) (step : w.step event = some (result, next)) : Synced next := by
  cases event with
  | enter info sites args closure =>
    cases step
    obtain ⟨outer, chain⟩ := legal.1
    exact h.enter legal (slotted_of_chain analyzed chain)
  | visit index n object =>
    cases here : w.activations[index]? with
    | none => simp [World.step, here] at step
    | some a =>
      cases there : a.sites[n]? with
      | none => simp [World.step, here, there] at step
      | some site =>
        rcases h.visit_cases here there (stores a site here there) step with
          (rfl | ⟨var, object, leftover, cleared, rfl⟩) | ⟨var, rfl⟩
        · exact h
        · exact h.assign var cleared
        · exact h.leave var
  | fillClassCell address object =>
    simp only [World.step] at step
    split_ifs at step
    cases step
    have cleared : (none : Option Obj).isSome = true → some object = none := by simp
    exact h.assign (.cell address) cleared

/-- A run keeps the places of the variables in step with the law. -/
theorem Reached.synced (analyzed : analyzeModule body = .ok root) (reached : Reached root w) :
    Synced w := by
  induction reached with
  | initial => exact synced_initial
  | step _ legal stores step ih => exact ih.step analyzed legal stores step

end Run

/-! ## The marks of `locals()` -/

namespace BodyScope

variable {scope : BodyScope} {slot : LocalId}

/-- A store to the name marks the slot. -/
def Marks (info : ScopeInfo) (name : String) (slot : LocalId) : Prop :=
  info.isGlobalName name = false ∧ info.isClass = false ∧
    (info.classOf name = some (.local slot) ∨ ∃ cell, info.classOf name = some (.cell slot cell))

theorem mark_info (access : Access) (name : String) : (scope.mark access name).info = scope.info := by
  unfold mark
  split
  · rfl
  · split <;> rfl

theorem mark_definedLocals (access : Access) (name : String) :
    (scope.mark access name).definedLocals slot = true ↔
      scope.definedLocals slot = true ∨ access = .store ∧ Marks scope.info name slot := by
  have marked (other : LocalId) : (scope.markLocalDefined other).definedLocals slot = true ↔
      scope.definedLocals slot = true ∨ other = slot := by
    simp only [markLocalDefined, Function.update_apply]
    grind
  unfold mark Marks
  split_ifs with none
  · rcases none with other | isGlobal | isClass
    · simp [other]
    · simp [isGlobal]
    · simp [isClass]
  · simp only [not_or, not_not, Bool.not_eq_true] at none
    obtain ⟨rfl, notGlobal, notClass⟩ := none
    split
    · next isCell => simp [marked, notGlobal, notClass, isCell]
    · next isLocal => simp [marked, notGlobal, notClass, isLocal]
    · next noCell noLocal =>
      have noMark : ¬(scope.info.classOf name = some (.local slot) ∨
          ∃ cell, scope.info.classOf name = some (.cell slot cell)) := by
        rintro (isLocal | ⟨cell, isCell⟩)
        · exact noLocal _ isLocal
        · exact noCell _ _ isCell
      simp [noMark]

theorem afterSites_info (sites : List Site) : (scope.afterSites sites).info = scope.info := by
  induction sites generalizing scope with
  | nil => rfl
  | cons site rest ih =>
    cases site with
    | access access name => exact ih.trans (mark_info access name)
    | handlerEnd isStar name | localsSnapshot => exact ih

theorem afterSites_definedLocals (sites : List Site) :
    (scope.afterSites sites).definedLocals slot = true ↔ scope.definedLocals slot = true ∨
      ∃ name, .access .store name ∈ sites ∧ Marks scope.info name slot := by
  induction sites generalizing scope with
  | nil => simp [afterSites]
  | cons site rest ih =>
    cases site with
    | access access name =>
      rw [afterSites, ih, mark_definedLocals, mark_info]
      simp only [List.mem_cons, Site.access.injEq]
      grind
    | handlerEnd isStar name | localsSnapshot =>
      rw [afterSites, ih]
      simp

end BodyScope

namespace Slotted

variable {info : ScopeInfo} {slot : LocalSlotInfo} (h : Slotted info) (mem : slot ∈ info.locals)
include h mem

theorem slot_inj {other : LocalSlotInfo}
    (mem' : other ∈ info.locals) (same : slot.slot = other.slot) : slot = other := by
  obtain ⟨i, here⟩ := List.mem_iff_getElem?.mp mem
  obtain ⟨j, there⟩ := List.mem_iff_getElem?.mp mem'
  obtain rfl : i = j := by rw [← h.indexed i slot here, same, h.indexed j other there]
  exact Option.some.inj (here.symm.trans there)

theorem isClass_eq_false : info.isClass = false := by
  have functionLike := h.functionLike slot mem
  cases kind : info.kind <;> simp_all [ScopeKind.isFunctionLike, ScopeInfo.isClass]

theorem isGlobalName_eq_false :
    info.isGlobalName slot.name = false := by
  have functionLike := h.functionLike slot mem
  have notModule : info.isModule = false := by
    cases kind : info.kind <;> simp_all [ScopeKind.isFunctionLike, ScopeInfo.isModule]
  rcases h.classOf slot mem with isLocal | ⟨cell, isCell⟩
  · simp [ScopeInfo.isGlobalName, notModule, isLocal]
  · simp [ScopeInfo.isGlobalName, notModule, isCell]

/-- Only stores to its own name mark a local slot. -/
theorem marks_iff {name : String} :
    BodyScope.Marks info name slot.slot ↔ name = slot.name := by
  constructor
  · exact fun marks ↦ slotOf?_inj h.indexed (h.slotOf marks.2.2) (h.slotOf (h.classOf slot mem))
  · rintro rfl
    exact ⟨h.isGlobalName_eq_false mem, h.isClass_eq_false mem, h.classOf slot mem⟩

theorem loadLocal_eq (value : Value) :
    info.rewriteCellLocalAccess (.loadLocal slot.slot) =
      Access.load.instAt value (info.location slot.name) ∧
    (info.location slot.name).IsVariable := by
  simp only [ScopeInfo.location, h.isGlobalName_eq_false mem, h.isClass_eq_false mem,
    ScopeInfo.rewriteCellLocalAccess]
  rcases h.classOf slot mem with isLocal | ⟨cell, isCell⟩
  · simp [isLocal, h.classified.localOnly _ _ isLocal, Access.instAt, Location.IsVariable]
  · simp [isCell, h.classified.cell _ _ _ isCell, Access.instAt, Location.IsVariable]

end Slotted

section LocalsSnapshot

variable {w : World} {index n : ℕ} {a : Activation} {name : String}

/-- The slots that are marked when the call is lowered are those of the listed names. -/
theorem marked_iff (h : Slotted a.info) {slot : LocalSlotInfo} (mem : slot ∈ a.info.locals) :
    ((BodyScope.new a.info).afterSites (a.sites.take n)).definedLocals slot.slot = true ↔
      slot.isParameter = true ∨ .access .store slot.name ∈ a.sites.take n := by
  rw [BodyScope.afterSites_definedLocals]
  refine or_congr ?_ ?_
  · simp only [BodyScope.new, List.any_eq_true, Bool.and_eq_true, beq_iff_eq]
    constructor
    · rintro ⟨other, mem', same, parameter⟩
      exact h.slot_inj mem' mem same ▸ parameter
    · exact fun parameter ↦ ⟨slot, mem, rfl, parameter⟩
  · have same (name : String) : BodyScope.Marks (BodyScope.new a.info).info name slot.slot ↔
        name = slot.name := h.marks_iff mem
    simp [same]

variable {load : InstKind Value} {items : List (String × InstKind Obj)}

theorem mem_lowerLocalsSnapshot (h : Slotted a.info) :
    (name, load) ∈ lowerLocalsSnapshot a.info a.sites n ↔
      ∃ slot ∈ a.info.locals, slot.name = name ∧
        (slot.isParameter = true ∨ .access .store name ∈ a.sites.take n) ∧
        load = a.info.rewriteCellLocalAccess (.loadLocal slot.slot) := by
  have sameInfo : ((BodyScope.new a.info).afterSites (a.sites.take n)).info = a.info :=
    BodyScope.afterSites_info _
  simp only [lowerLocalsSnapshot, BodyScope.localsSnapshotItems, sameInfo, List.map_map,
    List.mem_map, List.mem_filter, Function.comp_apply, Prod.mk.injEq]
  constructor
  · rintro ⟨slot, ⟨mem, marked⟩, rfl, rfl⟩
    exact ⟨slot, mem, rfl, (marked_iff h mem).mp marked, rfl⟩
  · rintro ⟨slot, mem, rfl, listed, rfl⟩
    exact ⟨slot, ⟨mem, (marked_iff h mem).mpr listed⟩, rfl, rfl⟩

/-- The loads of `locals()` read the places of the listed names. -/
theorem Synced.content_snapshot (h : Synced w) (here : w.activations[index]? = some a)
    (mem : (name, load) ∈ lowerLocalsSnapshot a.info a.sites n) :
    a.Listed n name ∧ ∃ var, a.varOf index name = some var ∧ w.content a load = w.held var := by
  have wellFormed := h.activations a (List.mem_of_getElem? here)
  obtain ⟨slot, isSlot, rfl, listed, rfl⟩ := (mem_lowerLocalsSnapshot wellFormed.slotted).mp mem
  obtain ⟨isLoad, isVariable⟩ := wellFormed.slotted.loadLocal_eq isSlot noneObj
  obtain ⟨var, isVar, content, stored⟩ := wellFormed.exists_varOf here isVariable
  refine ⟨⟨slot, isSlot, rfl, listed⟩, var, isVar, ?_⟩
  rw [isLoad, World.content_instAt here isVar (.inl rfl), stored, h.stored stored]
  rfl

theorem exists_load_of_listed (h : Slotted a.info) (listed : a.Listed n name) :
    ∃ load, (name, load) ∈ lowerLocalsSnapshot a.info a.sites n := by
  obtain ⟨slot, isSlot, rfl, listed⟩ := listed
  exact ⟨_, (mem_lowerLocalsSnapshot h).mpr ⟨slot, isSlot, rfl, listed, rfl⟩⟩

theorem mem_of_loadItems {pairs : List (String × Obj)} (h : w.loadItems a items = some pairs)
    {object : Obj} :
    (name, object) ∈ pairs ↔ ∃ load, (name, load) ∈ items ∧ w.content a load = some object := by
  induction items generalizing pairs with
  | nil =>
    cases h
    simp
  | cons item rest ih =>
    obtain ⟨other, load⟩ := item
    rw [World.loadItems] at h
    cases found : w.content a load with
    | none => simp [found] at h
    | some first =>
      simp only [found] at h
      obtain ⟨tail, loaded, rfl⟩ := Option.map_eq_some_iff.mp h
      simp only [List.mem_cons, Prod.mk.injEq, ih loaded]
      constructor
      · rintro (⟨rfl, rfl⟩ | ⟨load', mem, isObject⟩)
        · exact ⟨load, .inl ⟨rfl, rfl⟩, found⟩
        · exact ⟨load', .inr mem, isObject⟩
      · rintro ⟨load', ⟨rfl, rfl⟩ | mem, isObject⟩
        · exact .inl ⟨rfl, Option.some.inj (isObject.symm.trans found)⟩
        · exact .inr ⟨load', mem, isObject⟩

theorem loadItems_isSome :
    (w.loadItems a items).isSome = true ↔
      ∀ name load, (name, load) ∈ items → (w.content a load).isSome = true := by
  induction items with
  | nil => simp [World.loadItems]
  | cons item rest ih =>
    obtain ⟨other, load⟩ := item
    rw [World.loadItems]
    cases found : w.content a load with
    | none =>
      simp only [Option.isSome_none, Bool.false_eq_true, false_iff, not_forall]
      exact ⟨other, load, List.mem_cons_self, by simp [found]⟩
    | some first =>
      simp only [Option.isSome_map, ih, List.mem_cons, Prod.mk.injEq]
      constructor
      · rintro all name load' (⟨rfl, rfl⟩ | mem)
        · simp [found]
        · exact all name load' mem
      · exact fun all name load' mem ↦ all name load' (.inr mem)

end LocalsSnapshot

/-! ## Detection -/

section Detection

variable {w next : World} {index n : ℕ} {a : Activation} {object : Obj} {result : VisitResult}

theorem Synced.read_iff (h : Synced w) (here : w.activations[index]? = some a) {access : Access}
    {name : String} (there : a.sites[n]? = some (.access access name))
    (step : w.step (.visit index n object) = some (result, next)) :
    Detects w index a (.access access name) result ↔ Conforms w index a n (.access access name) := by
  simp only [Detects, Conforms]
  refine forall_congr' fun reads ↦ ?_
  have wellFormed := h.activations a (List.mem_of_getElem? here)
  have recorded := wellFormed.recorded _ (List.mem_of_getElem? there)
  have hits : ¬MissesCell a.info access name := by
    rcases reads with rfl | rfl <;> simp [MissesCell, Access.storesBySlot]
  by_cases isVariable : (a.info.location name).IsVariable
  · obtain ⟨var, isVar, content, stored⟩ := wellFormed.exists_varOf here isVariable
    obtain ⟨rfl, -⟩ := Prod.mk.inj (Option.some.inj ((step_access here there).symm.trans step))
    rw [wellFormed.slotted.inst_eq recorded hits isVariable, World.exec_load here isVar reads,
      stored, h.stored stored]
    simp only [isVariable, isVar, Option.some.injEq, exists_eq_left', forall_eq', true_imp_iff,
      Option.join_some, World.held]
    cases holds : w.leftover var with
    | some object => simp [h.unbound holds]
    | none => simp
  · simp [isVariable, varOf_eq_none isVariable]

theorem Synced.localsSnapshot_iff (h : Synced w) (here : w.activations[index]? = some a)
    (there : a.sites[n]? = some .localsSnapshot)
    (step : w.step (.visit index n object) = some (result, next)) :
    Detects w index a .localsSnapshot result ↔ Conforms w index a n .localsSnapshot := by
  have slotted := (h.activations a (List.mem_of_getElem? here)).slotted
  obtain ⟨rfl, -⟩ := Prod.mk.inj (Option.some.inj ((step_localsSnapshot here there).symm.trans step))
  simp only [Detects, Conforms]
  constructor
  · rintro ⟨pairs, isMapping, items⟩ name
    have loaded : w.loadItems a (lowerLocalsSnapshot a.info a.sites n) = some pairs := by
      cases found : w.loadItems a (lowerLocalsSnapshot a.info a.sites n) with
      | none => simp [found] at isMapping
      | some other => simpa [found] using isMapping
    constructor
    · rintro ⟨var, isVar, isBound⟩
      obtain ⟨object, bound⟩ := Option.isSome_iff_exists.mp isBound
      have pair : (name, object) ∈ pairs := (items name object).mpr ⟨var, isVar, bound⟩
      obtain ⟨load, mem, -⟩ := (mem_of_loadItems loaded).mp pair
      exact (h.content_snapshot here mem).1
    · intro listed
      obtain ⟨load, mem⟩ := exists_load_of_listed slotted listed
      have all := loadItems_isSome.mp (Option.isSome_iff_exists.mpr ⟨pairs, loaded⟩)
      obtain ⟨object, found⟩ := Option.isSome_iff_exists.mp (all name load mem)
      have pair : (name, object) ∈ pairs := (mem_of_loadItems loaded).mpr ⟨load, mem, found⟩
      obtain ⟨var, isVar, bound⟩ := (items name object).mp pair
      exact ⟨var, isVar, by simp [bound]⟩
  · intro conforms
    -- a listed name is bound, so its place holds the object and nothing that is left
    have content {name : String} {load : InstKind Value}
        (mem : (name, load) ∈ lowerLocalsSnapshot a.info a.sites n) :
        ∃ var object, a.varOf index name = some var ∧ w.bound var = some object ∧
          w.content a load = some object := by
      obtain ⟨listed, var, isVar, isContent⟩ := h.content_snapshot here mem
      obtain ⟨other, isOther, isBound⟩ := (conforms name).mpr listed
      obtain rfl := Option.some.inj (isVar.symm.trans isOther)
      obtain ⟨object, bound⟩ := Option.isSome_iff_exists.mp isBound
      refine ⟨var, object, isVar, bound, ?_⟩
      rw [isContent, World.held]
      cases holds : w.leftover var with
      | some object => exact absurd ((h.unbound holds).symm.trans bound) (by simp)
      | none => exact bound
    have all (name : String) (load : InstKind Value)
        (mem : (name, load) ∈ lowerLocalsSnapshot a.info a.sites n) :
        (w.content a load).isSome = true := by
      obtain ⟨_, _, -, -, found⟩ := content mem
      simp [found]
    obtain ⟨pairs, loaded⟩ := Option.isSome_iff_exists.mp (loadItems_isSome.mpr all)
    refine ⟨pairs, by simp [loaded], fun name object ↦ (mem_of_loadItems loaded).trans ⟨?_, ?_⟩⟩
    · rintro ⟨load, mem, found⟩
      obtain ⟨var, other, isVar, bound, isOther⟩ := content mem
      obtain rfl := Option.some.inj (isOther.symm.trans found)
      exact ⟨var, isVar, bound⟩
    · rintro ⟨var, isVar, bound⟩
      have listed : a.Listed n name := (conforms name).mp ⟨var, isVar, by simp [bound]⟩
      obtain ⟨load, mem⟩ := exists_load_of_listed slotted listed
      obtain ⟨other, found, isOther, bound', isContent⟩ := content mem
      obtain rfl := Option.some.inj (isVar.symm.trans isOther)
      obtain rfl := Option.some.inj (bound.symm.trans bound')
      exact ⟨load, mem, isContent⟩

/-- On every path a read detects that its variable is unbound, and `locals()` gives the bound
variables, exactly under the condition of `Conforms`. -/
theorem detects_unbound_iff {body : List Stmt} {root : ScopeInfo}
    (analyzed : analyzeModule body = .ok root) (reached : Reached root w)
    (here : w.activations[index]? = some a) {site : Site} (there : a.sites[n]? = some site)
    (step : w.step (.visit index n object) = some (result, next)) :
    Detects w index a site result ↔ Conforms w index a n site := by
  have synced := reached.synced analyzed
  cases site with
  | access access name => exact synced.read_iff here there step
  | handlerEnd isStar name => exact Iff.rfl
  | localsSnapshot => exact synced.localsSnapshot_iff here there step

end Detection

/-! ## A captured variable, a handler and a branch -/

/-- A function that reads `x` before it binds it and before an inner function that captures it, and
`def h(c): if c: x = 1; return locals()`. -/
def unboundModule : List Stmt :=
  [.functionDef ⟨0, 60⟩ false [] "f" [] (.mk [] [] none [] none) none
    [.assign [.name "y" .store] (.name "x" .load),
      .assign [.name "x" .store] (.literal "1"),
      .functionDef ⟨30, 60⟩ false [] "g" [] (.mk [] [] none [] none) none
        [.ret (some (.name "x" .load))]],
    .functionDef ⟨61, 110⟩ false [] "h" [] (.mk [] [.mk (.mk "c" none) none] none [] none) none
      [.if_ (.name "c" .load) [.assign [.name "x" .store] (.literal "1")] [],
        .ret (some (.call (.name "locals" .load) [] []))]]

/-- `def k(): try: raise x except x as problem: pass; problem` -/
def handlerModule : List Stmt :=
  [.functionDef ⟨0, 60⟩ false [] "k" [] (.mk [] [] none [] none) none
    [.try_ false [.raise (some (.name "x" .load)) none]
        [.mk (some (.name "x" .load)) (some "problem") [.pass]] [] [],
      .expr (.name "problem" .load)]]

/-- The places of the body of `k` from its handler on. -/
def handlerSites : List Site :=
  [.access .exceptAs "problem", .handlerEnd false "problem", .access .load "problem"]

/-- The places of the body of `f`. -/
def capturedSites : List Site :=
  [.access .load "x", .access .store "y", .access .store "x", .access .functionDef "g"]

/-- The places of the body of `h`. -/
def branchSites : List Site := [.access .load "c", .access .store "x", .localsSnapshot]

def enterOnly (info : ScopeInfo) (sites : List Site) : World :=
  World.initial.enter info sites (fun _ ↦ 7) []

theorem reached_enterOnly {root : ScopeInfo} {outer : List ScopeInfo} {sites : List Site}
    (chain : Chain root (info :: outer)) (recorded : Recorded info sites)
    (noFree : info.freeVars = []) : Reached root (enterOnly info sites) := by
  have legal : Legal root .initial (.enter info sites (fun _ ↦ 7) []) :=
    ⟨⟨outer, chain⟩, recorded, by simp [noFree], by simp⟩
  exact .step .initial legal trivial rfl

/-- `f` reads `None` from the cell of the unbound `x`. -/
theorem captured_read_none :
    ∃ root w a next, analyzeModule unboundModule = .ok root ∧ Reached root w ∧
      w.activations[0]? = some a ∧ a.sites[0]? = some (.access .load "x") ∧
      w.step (.visit 0 0 0) = some (.value noneObj, next) ∧
      (a.info.location "x").IsVariable ∧ a.varOf 0 "x" = some (.cell 0) ∧
      w.bound (.cell 0) = none := by
  obtain ⟨root, info, outer, analyzed, chain, holds⟩ := exists_chain unboundModule [0]
    (fun info _ ↦
      (info.symbol "x").any (Access.occurs .load) && (info.symbol "x").any (Access.occurs .store) &&
        (info.symbol "y").any (Access.occurs .store) &&
        (info.symbol "g").any (Access.occurs .functionDef) && info.freeVars = [] &&
        info.location "x" = .cell 0 &&
        (enterOnly info capturedSites).activations[0]?.bind (·.varOf 0 "x") = some (.cell 0) &&
        (enterOnly info capturedSites).bound (.cell 0) = none &&
        ((enterOnly info capturedSites).step (.visit 0 0 0)).map Prod.fst = some (.value noneObj)) (by decide)
  simp only [Bool.and_eq_true, decide_eq_true_eq] at holds
  obtain ⟨⟨⟨⟨⟨⟨⟨⟨loads, stores⟩, storesY⟩, defines⟩, noFree⟩, isCell⟩, isVar⟩, unbound⟩, reads⟩ := holds
  have recorded : Recorded info capturedSites := by
    simp [Recorded, capturedSites, loads, stores, storesY, defines]
  obtain ⟨⟨_, next⟩, step, rfl⟩ := Option.map_eq_some_iff.mp reads
  exact ⟨root, enterOnly info capturedSites, _, next, analyzed,
    reached_enterOnly chain recorded noFree, rfl, rfl, step, by simp [isCell, Location.IsVariable],
    isVar, unbound⟩

/-- The activation in front has these places, and what is read at the last one is known. -/
def readsAfterHandler (w : World) : Bool :=
  w.activations[0]?.any (·.sites = handlerSites) &&
    (w.step (.visit 0 1 0)).any fun left ↦
      (left.2.step (.visit 0 2 0)).map Prod.fst = some (.value 5) &&
        left.2.bound (.localSlot 0 0) = none &&
        left.2.activations[0]?.any fun a ↦ a.sites = handlerSites &&
          a.info.location "problem" = .localSlot 0

/-- `k` reads the exception from the slot of the unbound `problem`. -/
theorem handler_read_exception :
    ∃ root w a next, analyzeModule handlerModule = .ok root ∧ Reached root w ∧
      w.activations[0]? = some a ∧ a.sites[2]? = some (.access .load "problem") ∧
      w.step (.visit 0 2 0) = some (.value 5, next) ∧
      (a.info.location "problem").IsVariable ∧ a.varOf 0 "problem" = some (.localSlot 0 0) ∧
      w.bound (.localSlot 0 0) = none := by
  obtain ⟨root, info, outer, analyzed, chain, holds⟩ := exists_chain handlerModule [0]
    (fun info _ ↦
      (info.symbol "problem").any (Access.occurs .exceptAs) &&
        (info.symbol "problem").any (Access.occurs .load) && info.freeVars = [] &&
        (info.symbol "problem").map SymbolInfo.nameClass = some (.local 0) &&
        ((enterOnly info handlerSites).step (.visit 0 0 5)).any (readsAfterHandler ·.2)) (by decide)
  simp only [Bool.and_eq_true, decide_eq_true_eq] at holds
  obtain ⟨⟨⟨⟨binds, loads⟩, noFree⟩, isLocal⟩, run⟩ := holds
  have recorded : Recorded info handlerSites := by
    simp only [Recorded, handlerSites, List.forall_mem_cons]
    exact ⟨binds, binds, loads, by simp⟩
  have notMissed : ¬MissesCell info .exceptAs "problem" := by
    rintro ⟨-, symbol, found, outer⟩
    simp only [found, Option.map_some, Option.some.injEq] at isLocal
    simp [SymbolInfo.isOuterCell, isLocal] at outer
  obtain ⟨⟨_, w⟩, first, holds⟩ := (Option.any_eq_true _ _).mp run
  have reached : Reached root w := by
    have stores : StoresToCells (enterOnly info handlerSites) (.visit 0 0 5) := by
      rintro a site here there
      cases here
      cases there
      exact notMissed
    have legal : Legal root (enterOnly info handlerSites) (.visit 0 0 5) := trivial
    exact .step (reached_enterOnly chain recorded noFree) legal stores first
  simp only [readsAfterHandler, Bool.and_eq_true] at holds
  obtain ⟨entered, holds⟩ := holds
  obtain ⟨⟨_, w'⟩, second, holds⟩ := (Option.any_eq_true _ _).mp holds
  have reached' : Reached root w' := by
    have stores : StoresToCells w (.visit 0 1 0) := by
      intro a site here there
      simp only [here, Option.any_some, decide_eq_true_eq] at entered
      rw [entered] at there
      cases there
      intro isStar
      cases isStar
    have legal : Legal root w (.visit 0 1 0) := trivial
    exact .step reached legal stores second
  simp only [Bool.and_eq_true, decide_eq_true_eq] at holds
  obtain ⟨⟨reads, unbound⟩, activation⟩ := holds
  obtain ⟨a, here, holds⟩ := (Option.any_eq_true _ _).mp activation
  simp only [Bool.and_eq_true, decide_eq_true_eq] at holds
  obtain ⟨sites, isSlot⟩ := holds
  obtain ⟨⟨_, next⟩, step, rfl⟩ := Option.map_eq_some_iff.mp reads
  exact ⟨root, w', a, next, analyzed, reached', here, by simp [sites, handlerSites], step,
    by simp [isSlot, Location.IsVariable], by simp [Activation.varOf, Activation.place, isSlot], unbound⟩

/-- If `c` is false, `locals()` in `h` raises: it loads the slot of `x`. -/
theorem branch_locals_raises :
    ∃ root w a next, analyzeModule unboundModule = .ok root ∧ Reached root w ∧
      w.activations[0]? = some a ∧ a.sites[2]? = some .localsSnapshot ∧
      w.step (.visit 0 2 0) = some (.unbound, next) := by
  obtain ⟨root, info, outer, analyzed, chain, holds⟩ := exists_chain unboundModule [1]
    (fun info _ ↦
      (info.symbol "c").any (Access.occurs .load) && (info.symbol "x").any (Access.occurs .store) &&
        info.kind.isFunctionLike && info.freeVars = [] &&
        ((enterOnly info branchSites).step (.visit 0 2 0)).map Prod.fst = some .unbound) (by decide)
  simp only [Bool.and_eq_true, decide_eq_true_eq] at holds
  obtain ⟨⟨⟨⟨loads, stores⟩, functionLike⟩, noFree⟩, raises⟩ := holds
  have recorded : Recorded info branchSites := by
    simp [Recorded, branchSites, loads, stores, functionLike]
  obtain ⟨⟨_, next⟩, step, rfl⟩ := Option.map_eq_some_iff.mp raises
  exact ⟨root, enterOnly info branchSites, _, next, analyzed,
    reached_enterOnly chain recorded noFree, rfl, rfl, step⟩

/-- Every read of the module detects an unbound variable, on every path. -/
def ReadsDetected (body : List Stmt) : Prop :=
  ∀ root, analyzeModule body = .ok root → ∀ w, Reached root w → ∀ index n a access name,
    w.activations[index]? = some a → a.sites[n]? = some (.access access name) →
    ∀ object result next, w.step (.visit index n object) = some (result, next) →
    Detects w index a (.access access name) result

/-- Every call of `locals()` in the module gives the bound variables. -/
def LocalsDetected (body : List Stmt) : Prop :=
  ∀ root, analyzeModule body = .ok root → ∀ w, Reached root w → ∀ index n a,
    w.activations[index]? = some a → a.sites[n]? = some .localsSnapshot →
    ∀ object result next, w.step (.visit index n object) = some (result, next) →
    Detects w index a .localsSnapshot result

/-- Neither reads nor calls of `locals()` keep the law on every path. -/
theorem unbound_undetected :
    ¬ReadsDetected unboundModule ∧ ¬ReadsDetected handlerModule ∧ ¬LocalsDetected unboundModule := by
  refine ⟨fun law ↦ ?_, fun law ↦ ?_, fun law ↦ ?_⟩
  · obtain ⟨root, w, a, next, analyzed, reached, here, there, step, isVariable, isVar, unbound⟩ :=
      captured_read_none
    obtain ⟨var, same, raises⟩ :=
      law root analyzed w reached 0 0 a .load "x" here there 0 _ next step (.inl rfl) isVariable
    obtain rfl := Option.some.inj (isVar.symm.trans same)
    simp [unbound] at raises
  · obtain ⟨root, w, a, next, analyzed, reached, here, there, step, isVariable, isVar, unbound⟩ :=
      handler_read_exception
    obtain ⟨var, same, raises⟩ :=
      law root analyzed w reached 0 2 a .load "problem" here there 0 _ next step (.inl rfl) isVariable
    obtain rfl := Option.some.inj (isVar.symm.trans same)
    simp [unbound] at raises
  · obtain ⟨root, w, a, next, analyzed, reached, here, there, step⟩ := branch_locals_raises
    obtain ⟨pairs, isMapping, -⟩ := law root analyzed w reached 0 2 a here there 0 _ next step
    cases isMapping

theorem detects_unbound_iff_branch :
    ∃ root w a next, analyzeModule unboundModule = .ok root ∧ Reached root w ∧
      w.step (.visit 0 2 0) = some (.unbound, next) ∧
      (Detects w 0 a .localsSnapshot .unbound ↔ Conforms w 0 a 2 .localsSnapshot) := by
  obtain ⟨root, w, a, next, analyzed, reached, here, there, step⟩ := branch_locals_raises
  exact ⟨root, w, a, next, analyzed, reached, step,
    detects_unbound_iff analyzed reached here there step⟩

end Pon.Scope
