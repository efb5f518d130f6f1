import Pon.Scope.Storage

/-!
# Bodies and their activations

The names of a body at run time. A local slot holds an object or the sentinel for unbound. A captured
variable lives in a cell, which the prologue of the body fills with the argument, or with `None` if
the variable is no parameter. The end of an `except*` handler stores `None` into the variable of the
handler, and that of an `except` handler leaves the exception in it. `locals()` reads the slots that were marked as defined when its call was lowered.

Control flow is left open: a path is any sequence of visits to the places of any number of
activations. Objects are numbered, and `None` is the object 0.
-/

namespace Pon.Scope

open Ast Ir

/-- A place of a body where code for names is emitted, or the end of a handler that binds its
exception. -/
inductive Site where
  | access (access : Access) (name : String)
  | handlerEnd (isStar : Bool) (name : String)
  | localsSnapshot
  deriving DecidableEq

/-- The scope of a body while it is lowered. -/
structure BodyScope where
  info : ScopeInfo
  definedLocals : LocalId → Bool

namespace BodyScope

def new (info : ScopeInfo) : BodyScope where
  info := info
  definedLocals slot := info.locals.any fun local_ ↦ local_.slot == slot && local_.isParameter

def markLocalDefined (scope : BodyScope) (slot : LocalId) : BodyScope :=
  { scope with definedLocals := Function.update scope.definedLocals slot true }

def localsSnapshotItems (scope : BodyScope) : List (String × LocalId) :=
  (scope.info.locals.filter fun local_ ↦ scope.definedLocals local_.slot).map fun local_ ↦
    (local_.name, local_.slot)

/-- Of the store routines only `store_name_value` marks the slot of the name. -/
def mark (scope : BodyScope) (access : Access) (name : String) : BodyScope :=
  if access ≠ .store ∨ scope.info.isGlobalName name ∨ scope.info.isClass then scope
  else
    match scope.info.classOf name with
    | some (.cell localSlot _) => scope.markLocalDefined localSlot
    | some (.local slot) => scope.markLocalDefined slot
    | _ => scope

/-- The scope after code for these places has been emitted. -/
def afterSites (scope : BodyScope) : List Site → BodyScope
  | [] => scope
  | .access access name :: rest => (scope.mark access name).afterSites rest
  | .handlerEnd _ _ :: rest | .localsSnapshot :: rest => scope.afterSites rest

end BodyScope

/-- The loads of the call of `locals()` that is the place number `index` of a body. -/
def lowerLocalsSnapshot (info : ScopeInfo) (sites : List Site) (index : ℕ) :
    List (String × InstKind Value) :=
  ((BodyScope.new info).afterSites (sites.take index)).localsSnapshotItems.map fun item ↦
    (item.1, info.rewriteCellLocalAccess (.loadLocal item.2))

/-- Objects, by number. -/
abbrev Obj := ℕ

def noneObj : Obj := 0

/-- The address of a cell object. -/
abbrev Address := ℕ

/-- An activation of a body: its slots, and the cell objects of its own and its free variables. -/
structure Activation where
  info : ScopeInfo
  sites : List Site
  locals : LocalId → Option Obj
  ownCells : List Address
  closure : List Address

def Activation.cellAddress (a : Activation) (cell : CellId) : Option Address :=
  if cell < a.ownCells.length then a.ownCells[cell]?
  else a.closure[cell - a.ownCells.length]?

/-- A variable: a slot of an activation or a cell object. -/
inductive Var where
  | localSlot (activation : ℕ) (slot : LocalId)
  | cell (address : Address)
  deriving DecidableEq

/-- The variable at a location, in the activation numbered `index`. -/
def Activation.place (a : Activation) (index : ℕ) : Location → Option Var
  | .localSlot slot => some (.localSlot index slot)
  | .cell cell => (a.cellAddress cell).map .cell
  | .moduleGlobal _ | .namespace _ => none

/-- The variable that a name stands for. -/
def Activation.varOf (a : Activation) (index : ℕ) (name : String) : Option Var :=
  a.place index (a.info.location name)

/-- The activations and the contents of the cells. For the law only, the objects to which the variables
are bound, and what the code has left in the places of unbound variables. -/
structure World where
  activations : List Activation
  cells : List (Option Obj)
  bound : Var → Option Obj
  leftover : Var → Option Obj

def World.initial : World where
  activations := []
  cells := []
  bound _ := none
  leftover _ := none

/-- What a visit to a place comes to. `elsewhere` are accesses to globals and namespaces. -/
inductive VisitResult where
  | value (object : Obj)
  | mapping (items : List (String × Obj))
  | done
  | unbound
  | elsewhere
  deriving DecidableEq

namespace World

variable (w : World)

def setLocals (index : ℕ) (a : Activation) (locals : LocalId → Option Obj) : World :=
  { w with activations := w.activations.set index { a with locals } }

/-- What a load finds; no object is the sentinel of a local slot, or an empty cell. -/
def content (a : Activation) : InstKind Obj → Option Obj
  | .loadLocal slot => a.locals slot
  | .loadCell cell => (a.cellAddress cell).bind fun address ↦ w.cells[address]?.join
  | _ => none

/-- The instruction of an access, with its operand read. -/
def exec (index : ℕ) (a : Activation) : InstKind Obj → VisitResult × World
  | .loadLocal slot => ((w.content a (.loadLocal slot)).elim .unbound .value, w)
  | .storeLocal slot object =>
    (.done, w.setLocals index a (Function.update a.locals slot (some object)))
  | .deleteLocal slot =>
    match a.locals slot with
    | none => (.unbound, w)
    | some _ => (.done, w.setLocals index a (Function.update a.locals slot none))
  | .loadCell cell => ((w.content a (.loadCell cell)).elim .unbound .value, w)
  | .storeCell cell object =>
    match a.cellAddress cell with
    | none => (.elsewhere, w)
    | some address => (.done, { w with cells := w.cells.set address (some object) })
  | .deleteCell cell =>
    match a.cellAddress cell with
    | none => (.elsewhere, w)
    | some address => (.done, { w with cells := w.cells.set address none })
  | _ => (.elsewhere, w)

/-- The loads of `locals()` in order. One that finds nothing raises. -/
def loadItems (a : Activation) : List (String × InstKind Obj) → Option (List (String × Obj))
  | [] => some []
  | (name, load) :: rest =>
    match w.content a load with
    | none => none
    | some object => (loadItems a rest).map fun items ↦ (name, object) :: items

/-- Bind or unbind a variable. -/
def bind (var : Option Var) (object leftover : Option Obj) : World :=
  match var with
  | none => w
  | some var =>
    { w with
      bound := Function.update w.bound var object
      leftover := Function.update w.leftover var leftover }

/-- What is in the place of a variable. -/
def held (var : Var) : Option Obj :=
  (w.leftover var).or (w.bound var)

/-- Unbind a variable whose place the code does not clear. -/
def leave (var : Option Var) : World :=
  match var with
  | none => w
  | some var => w.bind (some var) none (w.held var)

/-- How an access changes what its variable is bound to. -/
def note (access : Access) (var : Option Var) (object : Obj) : World :=
  match access with
  | .load | .augLoad => w
  | .delete => w.bind var none none
  | .store | .augStore | .functionDef | .classDef | .import_ | .exceptAs =>
    w.bind var (some object) none

/-- The cells of the prologue, and whether they hold an argument. A variable that is no parameter starts
as `None`, and so does the implicit `__class__` cell of a class body. -/
def cellPrologue (info : ScopeInfo) (args : LocalId → Obj) : List (Obj × Bool) :=
  info.cellVars.filterMap fun name ↦
    match info.symbol name with
    | some { nameClass := .cell localSlot _, isParameter, .. } =>
      some (if isParameter then (args localSlot, true) else (noneObj, false))
    | _ => if info.needsClassClosure && name == "__class__" then some (noneObj, false) else none

/-- Enter a body with an argument for each parameter and the cells of its free variables. The
parameters are bound. -/
def enter (info : ScopeInfo) (sites : List Site) (args : LocalId → Obj) (closure : List Address) :
    World :=
  let made := cellPrologue info args
  let index := w.activations.length
  let base := w.cells.length
  let locals := fun slot ↦
    if info.locals.any fun local_ ↦ local_.slot == slot && local_.isParameter then some (args slot)
    else none
  let ownCells := (List.range made.length).map (base + ·)
  { activations := w.activations ++ [{ info, sites, locals, ownCells, closure }]
    cells := w.cells ++ made.map fun cell ↦ some cell.1
    bound := fun var ↦
      match var with
      | .localSlot other slot => if other = index then locals slot else w.bound var
      | .cell address =>
        if address < base then w.bound var
        else (made[address - base]?.filter Prod.snd).map Prod.fst
    leftover := fun var ↦
      match var with
      | .localSlot other _ => if other = index then none else w.leftover var
      | .cell address =>
        if address < base then w.leftover var
        else (made[address - base]?.filter (!·.2)).map Prod.fst }

/-- What happens on a path. The creation of a class fills its `__class__` cell. -/
inductive Event where
  | enter (info : ScopeInfo) (sites : List Site) (args : LocalId → Obj) (closure : List Address)
  | visit (activation site : ℕ) (object : Obj)
  | fillClassCell (address : Address) (object : Obj)

def step : Event → Option (VisitResult × World)
  | .enter info sites args closure => some (.done, w.enter info sites args closure)
  | .fillClassCell address object =>
    if address < w.cells.length then
      some (.done, { w with cells := w.cells.set address (some object) }.bind (some (.cell address))
        (some object) none)
    else none
  | .visit index site object =>
    match w.activations[index]? with
    | none => none
    | some a =>
      match a.sites[site]? with
      | none => none
      | some (.access access name) =>
        let (result, next) := w.exec index a (access.inst a.info name object)
        some (result, next.note access (a.varOf index name) object)
      | some (.handlerEnd true name) =>
        let (result, next) := w.exec index a (Access.exceptAs.inst a.info name noneObj)
        some (result, next.bind (a.varOf index name) none (some noneObj))
      | some (.handlerEnd false name) => some (.done, w.leave (a.varOf index name))
      | some .localsSnapshot =>
        let items := w.loadItems a (lowerLocalsSnapshot a.info a.sites site)
        some (items.elim .unbound .mapping, w)

end World

end Pon.Scope
