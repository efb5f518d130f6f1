import Pon.Scope.Builder

/-!
# Scope analysis

The second pass of scope analysis classifies the names of every scope. A scope is finalized against
the names that its enclosing functions bind; the free variables of the finished inner scopes then
become cells of the scope or free variables that it hands on.
-/

namespace Pon.Scope

open Ast
open Lower (LowerError)

/-- Classifications of a name in a scope. -/
inductive NameClass where
  | local (slot : ℕ)
  | global (explicit : Bool)
  | free (slot : ℕ)
  | cell (localSlot cellSlot : ℕ)
  | builtin
  deriving DecidableEq

structure SymbolInfo where
  name : String
  nameClass : NameClass
  isUsed : Bool
  isBound : Bool
  isNonlocal : Bool
  isParameter : Bool
  deriving DecidableEq

structure LocalSlotInfo where
  name : String
  slot : ℕ
  isParameter : Bool
  deriving DecidableEq

structure ParameterSlot where
  name : String
  slot : ℕ
  positionalOnly : Bool
  deriving DecidableEq

structure ParameterSummary where
  positional : List ParameterSlot
  positionalOnly : ℕ
  hasVararg : Bool
  keywordOnly : ℕ
  hasKwarg : Bool
  deriving DecidableEq

structure ScopeInfo where
  kind : ScopeKind
  name : String
  span : Option TextRange
  symbols : List SymbolInfo
  locals : List LocalSlotInfo
  freeVars : List String
  cellVars : List String
  /-- A class scope that owns the implicit `__class__` cell, which has no symbol. -/
  needsClassClosure : Bool
  parameters : ParameterSummary
  children : List ScopeInfo
  isGenerator : Bool
  isAsync : Bool
  typeParams : List String

def ScopeInfo.symbol (info : ScopeInfo) (name : String) : Option SymbolInfo :=
  info.symbols.find? (·.name == name)

def ScopeInfo.classOf (info : ScopeInfo) (name : String) : Option NameClass :=
  (info.symbol name).map SymbolInfo.nameClass

namespace ScopeBuilder

variable (builder : ScopeBuilder)

def localNames : List String :=
  if builder.kind.isFunctionLike then
    builder.bound.filter fun name ↦ name ∉ builder.globalDecl ∧ name ∉ builder.nonlocalDecl
  else []

def validateNonlocalBindings (enclosing : List String) : Except LowerError Unit :=
  go builder.nonlocalDecl
where
  go : List String → Except LowerError Unit
    | [] => .ok ()
    | name :: rest =>
        if builder.kind = .module then
          .error (.parse "nonlocal declaration not allowed at module level")
        else if name ∈ enclosing then go rest
        else .error (.parse s!"no binding for nonlocal '{name}' found")

/-- The names that the enclosing scopes of an inner scope bind. A class passes on the implicit
`__class__` instead of its own bindings. -/
def childEnclosing (enclosing : List String) : List String :=
  if builder.kind.isFunctionLike then extendNames enclosing builder.localNames
  else if builder.kind = .class_ then insertName "__class__" enclosing
  else enclosing

/-- The used names that resolve to an enclosing function. A name bound in a class body resolves
through the class namespace. -/
def usedFree (enclosing : List String) : List String :=
  builder.used.filter fun name ↦
    name ∉ builder.localNames ∧ name ∉ builder.globalDecl ∧
    ¬(builder.kind = .class_ ∧ name ∈ builder.bound ∧ name ∉ builder.nonlocalDecl) ∧
    name ∈ enclosing

/-- The names needed by inner scopes that the scope hands on. -/
def threadedFree (enclosing needed : List String) : List String :=
  match builder.kind with
  | .function | .comprehension =>
      needed.filter fun name ↦ name ∉ builder.localNames ∧ name ∉ builder.globalDecl
  | .class_ => needed.filter (· ∈ enclosing)
  | .module => []

def needsClassClosure (needed : List String) : Bool :=
  builder.kind = .class_ && "__class__" ∈ needed

def freeNames (enclosing needed : List String) : List String :=
  let names := extendNames (extendNames builder.nonlocalDecl (builder.usedFree enclosing))
    (builder.threadedFree enclosing needed)
  if builder.needsClassClosure needed then names.filter (· ≠ "__class__") else names

def cellNames (needed : List String) : List String :=
  let names := needed.filter (· ∈ builder.localNames)
  if builder.needsClassClosure needed then insertName "__class__" names else names

/-- The parameters come first, then the other local names in the order of their first binding. -/
def assignLocalSlots : List LocalSlotInfo :=
  let parameters := go true builder.formalParams []
  go false builder.bound parameters
where
  go (isParameter : Bool) : List String → List LocalSlotInfo → List LocalSlotInfo
    | [], slots => slots
    | name :: rest, slots =>
        if name ∈ builder.localNames ∧ ∀ slot ∈ slots, slot.name ≠ name then
          go isParameter rest (slots ++ [{ name, slot := slots.length, isParameter }])
        else go isParameter rest slots

def allNames (needed : List String) : List String :=
  let names := extendNames (extendNames (extendNames (extendNames (extendNames [] builder.bound)
    builder.used) builder.globalDecl) builder.nonlocalDecl) needed
  if builder.needsClassClosure needed && "__class__" ∉ builder.used &&
      "__class__" ∉ builder.bound && "__class__" ∉ builder.globalDecl &&
      "__class__" ∉ builder.nonlocalDecl then
    names.filter (· ≠ "__class__")
  else names

end ScopeBuilder

/-- The names of the builtin objects that the frontend knows. -/
def knownBuiltinNames : List String :=
  ["abs", "all", "any", "bool", "bytes", "callable", "chr", "classmethod", "complex", "dict", "dir",
   "divmod", "enumerate", "filter", "format", "float", "getattr", "globals", "hasattr", "Ellipsis",
   "hash", "int", "isinstance", "issubclass", "iter", "len", "list", "locals", "map", "max", "min",
   "next", "NotImplemented", "object", "pow", "print", "property", "range", "repr", "round", "set",
   "setattr", "slice", "sorted", "staticmethod", "str", "sum", "super", "tuple", "type", "zip"]

def isKnownBuiltin (name : String) : Bool := name ∈ knownBuiltinNames

def slotOf? (locals : List LocalSlotInfo) (name : String) : Option ℕ :=
  (locals.find? (·.name == name)).map LocalSlotInfo.slot

namespace ScopeBuilder

/-- The class of a name: a local slot first, then a free variable, a declaration, a builtin. -/
def classify (builder : ScopeBuilder) (enclosing needed : List String) (name : String) :
    NameClass :=
  match slotOf? builder.assignLocalSlots name, (builder.cellNames needed).idxOf? name,
      (builder.freeNames enclosing needed).idxOf? name with
  | some localSlot, some cellSlot, _ => .cell localSlot cellSlot
  | some localSlot, none, _ => .local localSlot
  | none, _, some freeSlot => .free freeSlot
  | none, _, none =>
      if name ∈ builder.globalDecl then .global true
      else if isKnownBuiltin name then .builtin
      else .global false

def symbolInfo (builder : ScopeBuilder) (enclosing needed : List String) (name : String) :
    SymbolInfo where
  name := name
  nameClass := builder.classify enclosing needed name
  isUsed := name ∈ builder.used
  isBound := name ∈ builder.bound
  isNonlocal := name ∈ builder.nonlocalDecl
  isParameter := name ∈ builder.formalParams

def parameterSummary (builder : ScopeBuilder) : ParameterSummary where
  positional := builder.params.zipIdx.filterMap fun (name, index) ↦
    (slotOf? builder.assignLocalSlots name).map fun slot ↦
      { name, slot, positionalOnly := index < builder.positionalOnly }
  positionalOnly := builder.positionalOnly
  hasVararg := builder.hasVararg
  keywordOnly := builder.keywordOnly
  hasKwarg := builder.hasKwarg

/-- The finished scope, given its finished inner scopes. -/
def scopeInfo (builder : ScopeBuilder) (enclosing needed : List String)
    (children : List ScopeInfo) : ScopeInfo where
  kind := builder.kind
  name := builder.name
  span := builder.span
  symbols := (builder.allNames needed).map (builder.symbolInfo enclosing needed)
  locals := builder.assignLocalSlots
  freeVars := builder.freeNames enclosing needed
  cellVars := builder.cellNames needed
  needsClassClosure := builder.needsClassClosure needed
  parameters := builder.parameterSummary
  children := children
  isGenerator := builder.isGenerator
  isAsync := builder.isAsync
  typeParams := builder.activeTypeParams

end ScopeBuilder

/-- The free variables of the inner scopes. -/
def namesNeededByChildren : List ScopeInfo → List String
  | [] => []
  | child :: rest => extendNames (namesNeededByChildren rest) child.freeVars

@[simp]
theorem mem_namesNeededByChildren {name : String} {children : List ScopeInfo} :
    name ∈ namesNeededByChildren children ↔ ∃ child ∈ children, name ∈ child.freeVars := by
  induction children with
  | nil => simp [namesNeededByChildren]
  | cons head tail ih =>
    rw [namesNeededByChildren, mem_extendNames, ih]
    simp [or_comm]

mutual

/-- The deferred annotation scope comes before the other inner scopes. -/
def finalizeScope (builder : ScopeBuilder) (enclosing : List String) :
    Except LowerError ScopeInfo :=
  match builder with
  | builder@{ children, annotate, .. } => do
    builder.validateNonlocalBindings enclosing
    let annotate ← finalizeOption annotate (builder.childEnclosing enclosing)
    let children ← finalizeScopes children (builder.childEnclosing enclosing)
    let children := annotate.toList ++ children
    .ok (builder.scopeInfo enclosing (namesNeededByChildren children) children)

def finalizeOption : Option ScopeBuilder → List String → Except LowerError (Option ScopeInfo)
  | none, _ => .ok none
  | some builder, enclosing => do
      let info ← finalizeScope builder enclosing
      .ok (some info)

def finalizeScopes : List ScopeBuilder → List String → Except LowerError (List ScopeInfo)
  | [], _ => .ok []
  | builder :: rest, enclosing => do
      let info ← finalizeScope builder enclosing
      let infos ← finalizeScopes rest enclosing
      .ok (info :: infos)

end

/-- The scope tree of a module. -/
def analyzeModule (body : List Stmt) : Except LowerError ScopeInfo := do
  let builder ← scanBody body { kind := .module, name := "__main__" }
  finalizeScope builder []

end Pon.Scope
