import Mathlib.Tactic.Tauto
import Pon.Ast.Syntax

/-!
# Scope builders

The first pass of scope analysis walks a module and records for every scope which names it binds,
uses and declares, with a builder for each inner scope. Sets of names are kept in alphabetical order
without repetition.
-/

namespace Pon.Lower

inductive LowerError where
  | unsupported (feature : String)
  | parse (message : String)
  | internal (message : String)

end Pon.Lower

namespace Pon.Scope

open Ast
open Lower (LowerError)

/-! ## Sets of names -/

def insertName (name : String) : List String → List String
  | [] => [name]
  | head :: tail =>
      if name = head then head :: tail
      else if name < head then name :: head :: tail
      else head :: insertName name tail

@[simp]
theorem mem_insertName {name other : String} {names : List String} :
    other ∈ insertName name names ↔ other = name ∨ other ∈ names := by
  induction names with
  | nil => simp [insertName]
  | cons head tail ih => grind [insertName]

def extendNames (names : List String) : List String → List String
  | [] => names
  | name :: more => extendNames (insertName name names) more

@[simp]
theorem mem_extendNames {other : String} {names more : List String} :
    other ∈ extendNames names more ↔ other ∈ names ∨ other ∈ more := by
  induction more generalizing names with
  | nil => simp [extendNames]
  | cons head tail ih =>
    rw [extendNames, ih, mem_insertName, List.mem_cons]
    tauto

/-! ## Builders -/

/-- The kinds of lexical namespaces. -/
inductive ScopeKind where
  | module | function | class_ | comprehension
  deriving DecidableEq

/-- Scopes whose bindings are local variables. -/
def ScopeKind.isFunctionLike : ScopeKind → Bool
  | .function | .comprehension => true
  | .module | .class_ => false

structure ScopeBuilder where
  kind : ScopeKind
  name : String
  span : Option TextRange := none
  params : List String := []
  formalParams : List String := []
  positionalOnly : ℕ := 0
  hasVararg : Bool := false
  keywordOnly : ℕ := 0
  hasKwarg : Bool := false
  /-- The bound names in the order of their first binding. -/
  bound : List String := []
  used : List String := []
  globalDecl : List String := []
  nonlocalDecl : List String := []
  children : List ScopeBuilder := []
  isGenerator : Bool := false
  isAsync : Bool := false
  /-- The type parameters visible to the annotation scopes created inside this scope. -/
  activeTypeParams : List String := []
  /-- The deferred scope of the annotations of a module or class body. -/
  annotate : Option ScopeBuilder := none

namespace ScopeBuilder

variable (scope : ScopeBuilder)

def bind (name : String) : ScopeBuilder :=
  if name ∈ scope.bound then scope else { scope with bound := scope.bound ++ [name] }

def bindAll (names : List String) : ScopeBuilder :=
  names.foldl bind scope

def useName (name : String) : ScopeBuilder :=
  { scope with used := insertName name scope.used }

def declareGlobal (name : String) : ScopeBuilder :=
  { scope with globalDecl := insertName name scope.globalDecl }

def declareNonlocal (name : String) : ScopeBuilder :=
  { scope with nonlocalDecl := insertName name scope.nonlocalDecl }

def addChild (scope child : ScopeBuilder) : ScopeBuilder :=
  { scope with children := scope.children ++ [child] }

end ScopeBuilder

def annotateScopeName : String := "__annotate__"

def typeAliasScopeName : String := "<type_alias>"

/-- The scope of a synthesized annotation or alias function. It binds the type parameters as plain
locals. -/
def annotateBuilder (name : String) (typeParams : List String) : ScopeBuilder :=
  let builder : ScopeBuilder := { kind := .function, name }
  let builder :=
    if name = annotateScopeName then
      { builder with params := ["format"], formalParams := ["format"] }.bind "format"
    else builder
  { builder.bindAll typeParams with activeTypeParams := typeParams }

def fillParameters : Parameters → ScopeBuilder → ScopeBuilder
  | .mk posonlyargs args vararg kwonlyargs kwarg, builder =>
      let name := fun (parameter : ParameterWithDefault) ↦ parameter.parameter.name
      let positional := (posonlyargs ++ args).map name
      let formal := positional ++ (vararg.map Parameter.name).toList ++ kwonlyargs.map name ++
        (kwarg.map Parameter.name).toList
      { builder with
        positionalOnly := posonlyargs.length
        keywordOnly := kwonlyargs.length
        hasVararg := vararg.isSome
        hasKwarg := kwarg.isSome
        params := builder.params ++ positional
        formalParams := builder.formalParams ++ formal }.bindAll formal

def functionBuilder (range : TextRange) (name : String) (isAsync : Bool)
    (parameters : Parameters) : ScopeBuilder :=
  fillParameters parameters { kind := .function, name, span := some range, isAsync }

/-- An asynchronous comprehension makes an enclosing comprehension asynchronous; a generator
expression does not. -/
def propagateComprehensionAsyncness (child enclosing : ScopeBuilder) : ScopeBuilder :=
  if child.isAsync && !child.isGenerator && enclosing.kind = .comprehension then
    { enclosing with isAsync := true }
  else enclosing

def validateGlobalDeclaration (scope : ScopeBuilder) (name : String) : Except LowerError Unit :=
  if name ∈ scope.formalParams then .error (.parse s!"name '{name}' is parameter and global")
  else if name ∈ scope.used then
    .error (.parse s!"name '{name}' is used prior to global declaration")
  else if name ∈ scope.bound then
    .error (.parse s!"name '{name}' is assigned to before global declaration")
  else if name ∈ scope.nonlocalDecl then .error (.parse s!"name '{name}' is nonlocal and global")
  else .ok ()

def validateNonlocalDeclaration (scope : ScopeBuilder) (name : String) : Except LowerError Unit :=
  if name ∈ scope.formalParams then .error (.parse s!"name '{name}' is parameter and nonlocal")
  else if name ∈ scope.used then
    .error (.parse s!"name '{name}' is used prior to nonlocal declaration")
  else if name ∈ scope.bound then
    .error (.parse s!"name '{name}' is assigned to before nonlocal declaration")
  else if name ∈ scope.globalDecl then .error (.parse s!"name '{name}' is nonlocal and global")
  else .ok ()

def declareGlobals : List String → ScopeBuilder → Except LowerError ScopeBuilder
  | [], scope => .ok scope
  | name :: rest, scope => do
      validateGlobalDeclaration scope name
      declareGlobals rest (scope.declareGlobal name)

def declareNonlocals : List String → ScopeBuilder → Except LowerError ScopeBuilder
  | [], scope => .ok scope
  | name :: rest, scope => do
      validateNonlocalDeclaration scope name
      declareNonlocals rest (scope.declareNonlocal name)

/-- The name that an import binds: the `as` name or the part before the first dot. -/
def importBindingName (imported : Alias) : String :=
  imported.asname.getD ((imported.name.splitOn ".").headD imported.name)

/-! ## Expressions -/

mutual

def scanExpr : Expr → ScopeBuilder → Except LowerError ScopeBuilder
  | .name id .load, scope => .ok (scope.useName id)
  | .name id .store, scope | .name id .del, scope => .ok (scope.bind id)
  | .name _ .invalid, scope => .ok scope
  | .boolOp _ values, scope => scanExprs values scope
  | .named target value, scope => do
      let scope ← scanExpr value scope
      bindTarget target scope
  | .binOp _ left right, scope => do
      let scope ← scanExpr left scope
      scanExpr right scope
  | .unaryOp _ operand, scope => scanExpr operand scope
  | .lambda range parameters body, scope => do
      let child : ScopeBuilder := { kind := .function, name := "<lambda>", span := some range }
      match parameters with
      | some parameters =>
          let scope ← scanParameterDefaults parameters scope
          let child ← scanExpr body (fillParameters parameters child)
          .ok (scope.addChild child)
      | none =>
          let child ← scanExpr body child
          .ok (scope.addChild child)
  | .ifExp test body orelse, scope => do
      let scope ← scanExpr test scope
      let scope ← scanExpr body scope
      scanExpr orelse scope
  | .dict items, scope => scanItems items scope
  | .set elts, scope => scanExprs elts scope
  | .listComp range elt generators, scope => do
      let child : ScopeBuilder := { kind := .comprehension, name := "<listcomp>", span := some range }
      let (scope, child) ← scanComprehensionGenerators generators scope child
      let child ← scanExpr elt child
      .ok ((propagateComprehensionAsyncness child scope).addChild child)
  | .setComp range elt generators, scope => do
      let child : ScopeBuilder := { kind := .comprehension, name := "<setcomp>", span := some range }
      let (scope, child) ← scanComprehensionGenerators generators scope child
      let child ← scanExpr elt child
      .ok ((propagateComprehensionAsyncness child scope).addChild child)
  | .dictComp range key value generators, scope => do
      let child : ScopeBuilder := { kind := .comprehension, name := "<dictcomp>", span := some range }
      let (scope, child) ← scanComprehensionGenerators generators scope child
      let child ← scanExpr key child
      let child ← scanExpr value child
      .ok ((propagateComprehensionAsyncness child scope).addChild child)
  | .generator range elt generators, scope => do
      let child : ScopeBuilder :=
        { kind := .comprehension, name := "<genexpr>", span := some range, isGenerator := true }
      let (scope, child) ← scanComprehensionGenerators generators scope child
      let child ← scanExpr elt child
      .ok ((propagateComprehensionAsyncness child scope).addChild child)
  | .await value, scope => scanExpr value { scope with isAsync := true }
  | .yield value, scope => scanOption value { scope with isGenerator := true }
  | .yieldFrom value, scope => scanExpr value { scope with isGenerator := true }
  | .compare left _ comparators, scope => do
      let scope ← scanExpr left scope
      scanExprs comparators scope
  | .call func args keywords, scope => do
      let scope ← scanExpr func scope
      let scope ← scanExprs args scope
      scanKeywords keywords scope
  | .fString elements, scope | .tString elements, scope => scanInterpolatedElements elements scope
  | .attribute value _ _, scope => scanExpr value scope
  | .subscript value slice _, scope => do
      let scope ← scanExpr value scope
      scanExpr slice scope
  | .starred value _, scope => scanExpr value scope
  | .list elts _, scope | .tuple elts _, scope => scanExprs elts scope
  | .slice lower upper step, scope => do
      let scope ← scanOption lower scope
      let scope ← scanOption upper scope
      scanOption step scope
  | .literal _, scope => .ok scope

def scanExprs : List Expr → ScopeBuilder → Except LowerError ScopeBuilder
  | [], scope => .ok scope
  | expr :: rest, scope => do
      let scope ← scanExpr expr scope
      scanExprs rest scope

def scanOption : Option Expr → ScopeBuilder → Except LowerError ScopeBuilder
  | none, scope => .ok scope
  | some expr, scope => scanExpr expr scope

def scanItems : List DictItem → ScopeBuilder → Except LowerError ScopeBuilder
  | [], scope => .ok scope
  | .mk key value :: rest, scope => do
      let scope ← scanOption key scope
      let scope ← scanExpr value scope
      scanItems rest scope

def scanKeywords : List Keyword → ScopeBuilder → Except LowerError ScopeBuilder
  | [], scope => .ok scope
  | .mk _ value :: rest, scope => do
      let scope ← scanExpr value scope
      scanKeywords rest scope

def scanInterpolatedElements :
    List InterpolatedStringElement → ScopeBuilder → Except LowerError ScopeBuilder
  | [], scope => .ok scope
  | .literal _ :: rest, scope => scanInterpolatedElements rest scope
  | .interpolation expression formatSpec :: rest, scope => do
      let scope ← scanExpr expression scope
      let scope ← scanInterpolatedElements formatSpec scope
      scanInterpolatedElements rest scope

def scanParameterDefaults : Parameters → ScopeBuilder → Except LowerError ScopeBuilder
  | .mk posonlyargs args _ kwonlyargs _, scope => do
      let scope ← scanDefaults posonlyargs scope
      let scope ← scanDefaults args scope
      scanDefaults kwonlyargs scope

def scanDefaults :
    List ParameterWithDefault → ScopeBuilder → Except LowerError ScopeBuilder
  | [], scope => .ok scope
  | .mk _ default :: rest, scope => do
      let scope ← scanOption default scope
      scanDefaults rest scope

/-- The first iterable belongs to the enclosing scope, everything else to the comprehension. -/
def scanComprehensionGenerators :
    List Comprehension → ScopeBuilder → ScopeBuilder → Except LowerError (ScopeBuilder × ScopeBuilder)
  | [], _, _ => .error (.internal "comprehension without generator clause")
  | .mk target iter ifs isAsync :: rest, enclosing, child => do
      let child := { child with params := child.params ++ [".0"] }.bind ".0"
      let enclosing ← scanExpr iter enclosing
      let child ← bindTarget target child
      let child ← scanExprs ifs child
      let child ← scanGenerators rest { child with isAsync := child.isAsync || isAsync }
      .ok (enclosing, child)

def scanGenerators : List Comprehension → ScopeBuilder → Except LowerError ScopeBuilder
  | [], child => .ok child
  | .mk target iter ifs isAsync :: rest, child => do
      let child ← scanExpr iter child
      let child ← bindTarget target child
      let child ← scanExprs ifs child
      scanGenerators rest { child with isAsync := child.isAsync || isAsync }

def bindTarget : Expr → ScopeBuilder → Except LowerError ScopeBuilder
  | .name id .store, scope | .name id .del, scope => .ok (scope.bind id)
  | .tuple elts _, scope | .list elts _, scope => bindTargets elts scope
  | .starred value _, scope => bindTarget value scope
  | .attribute value _ _, scope => scanExpr value scope
  | .subscript value slice _, scope => do
      let scope ← scanExpr value scope
      scanExpr slice scope
  | _, scope => .ok scope

def bindTargets : List Expr → ScopeBuilder → Except LowerError ScopeBuilder
  | [], scope => .ok scope
  | target :: rest, scope => do
      let scope ← bindTarget target scope
      bindTargets rest scope

end

/-! ## Patterns -/

mutual

def bindPattern : Pattern → ScopeBuilder → Except LowerError ScopeBuilder
  | .matchValue value, scope => scanExpr value scope
  | .matchSingleton, scope => .ok scope
  | .matchSequence patterns, scope => bindPatterns patterns scope
  | .matchMapping keys patterns rest, scope => do
      let scope ← scanExprs keys scope
      let scope ← bindPatterns patterns scope
      .ok (scope.bindAll rest.toList)
  | .matchClass cls patterns keywords, scope => do
      let scope ← scanExpr cls scope
      let scope ← bindPatterns patterns scope
      bindPatternKeywords keywords scope
  | .matchStar name, scope => .ok (scope.bindAll name.toList)
  | .matchAs pattern name, scope => do
      let scope ← match pattern with
        | some pattern => bindPattern pattern scope
        | none => .ok scope
      .ok (scope.bindAll name.toList)
  | .matchOr patterns, scope => bindPatterns patterns scope

def bindPatterns : List Pattern → ScopeBuilder → Except LowerError ScopeBuilder
  | [], scope => .ok scope
  | pattern :: rest, scope => do
      let scope ← bindPattern pattern scope
      bindPatterns rest scope

def bindPatternKeywords : List PatternKeyword → ScopeBuilder → Except LowerError ScopeBuilder
  | [], scope => .ok scope
  | .mk _ pattern :: rest, scope => do
      let scope ← bindPattern pattern scope
      bindPatternKeywords rest scope

end

/-! ## Statements -/

/-- The annotations in the order in which they are later evaluated: positional parameters, `*args`,
keyword-only parameters, `**kwargs`. -/
def parameterAnnotations : Parameters → List Expr
  | .mk posonlyargs args vararg kwonlyargs kwarg =>
      let annotated := fun (parameter : ParameterWithDefault) ↦ parameter.parameter.annotated
      (posonlyargs ++ args).filterMap annotated ++ (vararg.bind Parameter.annotated).toList ++
        kwonlyargs.filterMap annotated ++ (kwarg.bind Parameter.annotated).toList

def functionDefHasAnnotations (parameters : Parameters) (returns : Option Expr) : Bool :=
  returns.isSome || !(parameterAnnotations parameters).isEmpty

def scanWithItems : List WithItem → ScopeBuilder → Except LowerError ScopeBuilder
  | [], scope => .ok scope
  | item :: rest, scope => do
      let scope ← scanExpr item.contextExpr scope
      let scope ← match item.optionalVars with
        | some target => bindTarget target scope
        | none => .ok scope
      scanWithItems rest scope

/-- Annotations of plain names in a module or class body are deferred to the `__annotate__` scope. -/
def scanAnnotated (target annotation : Expr) (scope : ScopeBuilder) :
    Except LowerError ScopeBuilder :=
  match scope.kind, target with
  | .module, .name .. | .class_, .name .. => do
      let child := scope.annotate.getD (annotateBuilder annotateScopeName scope.activeTypeParams)
      let child ← scanExpr annotation child
      .ok { scope with annotate := some child }
  | _, _ => scanExpr annotation scope

/-- The annotations of a function definition form a scope of their own, in front of its body. -/
def scanFunctionAnnotations (range : TextRange) (parameters : Parameters) (returns : Option Expr)
    (active : List String) (scope : ScopeBuilder) : Except LowerError ScopeBuilder :=
  if functionDefHasAnnotations parameters returns then do
    let annotate := { annotateBuilder annotateScopeName active with span := some range }
    let annotate ← scanOption returns annotate
    let annotate ← scanExprs (parameterAnnotations parameters) annotate
    .ok (scope.addChild annotate)
  else .ok scope

mutual

def scanStmt : Stmt → ScopeBuilder → Except LowerError ScopeBuilder
  | .functionDef range isAsync decoratorList name typeParams parameters returns body, scope => do
      let scope ← scanExprs decoratorList scope
      let scope ← scanParameterDefaults parameters scope
      let scope := scope.bind name
      let active := scope.activeTypeParams ++ typeParams
      let scope ← scanFunctionAnnotations range parameters returns active scope
      let child := functionBuilder range name isAsync parameters
      let child ← scanBody body { child with activeTypeParams := active }
      .ok (scope.addChild child)
  | .classDef range decoratorList name typeParams args keywords body, scope => do
      let scope ← scanExprs decoratorList scope
      let scope ← scanExprs args scope
      let scope ← scanKeywords keywords scope
      let scope := scope.bind name
      let active := scope.activeTypeParams ++ typeParams
      let child ← scanBody body
        { kind := .class_, name, span := some range, activeTypeParams := active }
      .ok (scope.addChild child)
  | .ret value, scope => scanOption value scope
  | .delete targets, scope => bindTargets targets scope
  | .typeAlias range name typeParams value, scope => do
      let scope ← bindTarget name scope
      let active := scope.activeTypeParams ++ typeParams
      let thunk ← scanExpr value { annotateBuilder typeAliasScopeName active with span := some range }
      .ok (scope.addChild thunk)
  | .assign targets value, scope => do
      let scope ← scanExpr value scope
      bindTargets targets scope
  | .augAssign target _ value, scope => do
      let scope ← scanExpr target scope
      let scope ← scanExpr value scope
      bindTarget target scope
  | .annAssign target annotation _ value, scope => do
      let scope ← scanAnnotated target annotation scope
      let scope ← scanOption value scope
      bindTarget target scope
  | .for_ _ target iter body orelse, scope => do
      let scope ← scanExpr iter scope
      let scope ← bindTarget target scope
      let scope ← scanBody body scope
      scanBody orelse scope
  | .while_ test body orelse, scope => do
      let scope ← scanExpr test scope
      let scope ← scanBody body scope
      scanBody orelse scope
  | .if_ test body elifElseClauses, scope => do
      let scope ← scanExpr test scope
      let scope ← scanBody body scope
      scanClauses elifElseClauses scope
  | .with_ _ items body, scope => do
      let scope ← scanWithItems items scope
      scanBody body scope
  | .match_ subject cases_, scope => do
      let scope ← scanExpr subject scope
      scanCases cases_ scope
  | .raise exc cause, scope => do
      let scope ← scanOption exc scope
      scanOption cause scope
  | .try_ _ body handlers orelse finalbody, scope => do
      let scope ← scanBody body scope
      let scope ← scanHandlers handlers scope
      let scope ← scanBody orelse scope
      scanBody finalbody scope
  | .assert_ test msg, scope => do
      let scope ← scanExpr test scope
      scanOption msg scope
  | .import_ names, scope | .importFrom _ names _, scope =>
      .ok (scope.bindAll (names.map importBindingName))
  | .global names, scope => declareGlobals names scope
  | .nonlocal names, scope => declareNonlocals names scope
  | .expr value, scope => scanExpr value scope
  | .pass, scope | .brk, scope | .cont, scope => .ok scope

def scanBody : List Stmt → ScopeBuilder → Except LowerError ScopeBuilder
  | [], scope => .ok scope
  | stmt :: rest, scope => do
      let scope ← scanStmt stmt scope
      scanBody rest scope

def scanClauses : List ElifElseClause → ScopeBuilder → Except LowerError ScopeBuilder
  | [], scope => .ok scope
  | .mk test body :: rest, scope => do
      let scope ← scanOption test scope
      let scope ← scanBody body scope
      scanClauses rest scope

def scanCases : List MatchCase → ScopeBuilder → Except LowerError ScopeBuilder
  | [], scope => .ok scope
  | .mk pattern guard body :: rest, scope => do
      let scope ← bindPattern pattern scope
      let scope ← scanOption guard scope
      let scope ← scanBody body scope
      scanCases rest scope

def scanHandlers : List ExceptHandler → ScopeBuilder → Except LowerError ScopeBuilder
  | [], scope => .ok scope
  | .mk type_ name body :: rest, scope => do
      let scope ← scanOption type_ scope
      let scope ← scanBody body (scope.bindAll name.toList)
      scanHandlers rest scope

end

end Pon.Scope
