import Pon.Lib.Effect
import Pon.Scope.Python

/-!
# Judgements about scanning

Scanning a piece of syntax composes steps of a few kinds in the order of the events of that piece. A
judgement about steps and events that these compositions keep holds of every scan.
-/

namespace Pon.Scope

open Ast
open Lower (LowerError)
open Python (BlockKind Event)

/-- The scope kind that the frontend uses for a block. -/
def Python.BlockKind.scopeKind : BlockKind → ScopeKind
  | .module => .module
  | .class_ => .class_
  | .comprehension => .comprehension
  | .function | .annotations | .typeAlias | .typeParams => .function

/-- The kinds of blocks that hold statements. -/
def Python.BlockKind.HasBody (kind : BlockKind) : Prop :=
  kind = .module ∨ kind = .function ∨ kind = .class_

theorem Python.BlockKind.HasBody.ne_annotations {kind : BlockKind} (h : kind.HasBody) :
    kind ≠ .annotations := by
  rintro rfl
  simp [Python.BlockKind.HasBody] at h

/-- The bindings of targets: assignments, iteration variables and assignment expressions. -/
inductive IsTarget : (String → Event) → Prop
  | bind : IsTarget .bind
  | iterate : IsTarget .iterate
  | walrus : IsTarget .walrus

abbrev Scan := ScopeBuilder → Except LowerError ScopeBuilder

/-- The judgement `J` about the scans in a block is kept by the compositions of which scanning consists.
`Opens` holds of the builders that an inner block starts from with its first events, and `Admits` of
the type parameters that such a builder may see. -/
structure Closed (J : BlockKind → Scan → List Event → Prop)
    (Opens : BlockKind → ScopeBuilder → String → Option TextRange → List Event → Prop)
    (Admits : List String → Prop) : Prop where
  skip : ∀ {kind}, J kind .ok []
  bind : ∀ {kind first second events more}, J kind first events → J kind second more →
    J kind (fun scope ↦ first scope >>= second) (events ++ more)
  flags : ∀ {kind step events}, J kind step events → ∀ isGenerator isAsync : ScopeBuilder → Bool,
    J kind (fun scope ↦ step
      { scope with isGenerator := isGenerator scope, isAsync := isAsync scope }) events
  forbid : ∀ {kind step events} deep, J kind step events → J kind step (Python.forbidWalrus deep events)
  useName : ∀ {kind} id, J kind (fun scope ↦ .ok (scope.useName id)) [.use id]
  target : ∀ {kind binding}, IsTarget binding → ∀ name,
    J kind (fun scope ↦ .ok (scope.bind name)) [binding name]
  annotatedTarget : ∀ {kind} name (event : Event), event = .annotated name ∨ event = .bareAnnotated name →
    J kind (fun scope ↦ .ok (scope.bind name)) [event]
  importStar : ∀ {kind}, J kind .ok [.importStar]
  declareGlobal : ∀ {kind : BlockKind}, kind ≠ .annotations → ∀ name,
    J kind (fun scope ↦ validateGlobalDeclaration scope name >>= fun _ ↦
      .ok (scope.declareGlobal name)) [.global name]
  declareNonlocal : ∀ {kind : BlockKind}, kind ≠ .annotations → ∀ name,
    J kind (fun scope ↦ validateNonlocalDeclaration scope name >>= fun _ ↦
      .ok (scope.declareNonlocal name)) [.nonlocal name]
  annotated : ∀ {kind target annotation},
    (∀ kind, J kind (scanExpr annotation) (Python.exprEvents annotation)) →
    J kind (scanAnnotated target annotation) (Python.annotationEvents kind target annotation)
  openLambda : ∀ range parameters, Opens .function (functionBuilder range "<lambda>" false parameters)
    "<lambda>" (some range) (Python.paramEvents parameters)
  openFunction : ∀ own range isAsync parameters {active}, Admits active →
    Opens .function { functionBuilder range own isAsync parameters with activeTypeParams := active } own
      (some range) (Python.paramEvents parameters)
  openPlain : ∀ own range, Opens .function { kind := .function, name := own, span := some range } own
    (some range) []
  openClass : ∀ own range {active}, Admits active →
    Opens .class_ { kind := .class_, name := own, span := some range, activeTypeParams := active } own
      (some range) []
  openAnnotations : ∀ range {active}, Admits active →
    Opens .annotations { annotateBuilder annotateScopeName active with span := some range }
      annotateScopeName (some range) []
  openAlias : ∀ range {active}, Admits active →
    Opens .typeAlias { annotateBuilder typeAliasScopeName active with span := some range }
      typeAliasScopeName (some range) []
  child : ∀ {kind inner start own span before step events}, J inner step events →
    Opens inner start own span before →
    J kind (fun scope ↦ step start >>= fun child ↦ .ok (scope.addChild child))
      [.block inner own span (before ++ events)]
  comprehension : ∀ {kind iter outer step events} own range isGenerator, J kind iter outer →
    J .comprehension step events →
    J kind (fun scope ↦ (do
      let scope ← iter scope
      let child ← step
        { kind := .comprehension, name := own, span := some range, params := [".0"],
          bound := [".0"], isGenerator }
      .ok ((propagateComprehensionAsyncness child scope).addChild child)))
      (Python.forbidWalrus true outer ++
        [.block .comprehension own (some range) (.param ".0" :: events)])
  malformed : ∀ {kind} (error : LowerError), J kind (fun _ ↦ .error error) [.malformed]
  generic : ∀ {kind events} (step : List String → Scan) own range typeParams,
    (∀ active, Admits active → J kind (step active) events) →
    J kind (fun scope ↦ step (scope.activeTypeParams ++ typeParams) scope)
      (Python.genericEvents own range typeParams events)
  /-- The header of a generic class is scanned before the name is bound. -/
  header : ∀ {kind step before own range param params events events'},
    J kind step (before ++ Python.genericEvents own range (param :: params) events) →
    J kind step (.bind own :: Python.genericEvents own range (param :: params) events')

/-- The scans of a comprehension in the order of the events. -/
theorem scanComprehensionGenerators_bind {α : Type} (target iter : Expr) (ifs : List Expr)
    (isAsync : Bool) (rest : List Comprehension) (scope child : ScopeBuilder)
    (next : ScopeBuilder × ScopeBuilder → Except LowerError α) :
    (scanComprehensionGenerators (.mk target iter ifs isAsync :: rest) scope child >>= next) = (do
      let scope ← scanExpr iter scope
      let child ← bindTarget target ({ child with params := child.params ++ [".0"] }.bind ".0")
      let child ← scanExprs ifs child
      let child ← scanGenerators rest { child with isAsync := child.isAsync || isAsync }
      next (scope, child)) := by
  simp only [scanComprehensionGenerators, bind_assoc]
  rfl

namespace Closed

variable {J : BlockKind → Scan → List Event → Prop}
  {Opens : BlockKind → ScopeBuilder → String → Option TextRange → List Event → Prop}
  {Admits : List String → Prop} (L : Closed J Opens Admits)
include L

mutual

theorem of_expr (kind : BlockKind) :
    ∀ expr : Expr, J kind (scanExpr expr) (Python.exprEvents expr)
  | .name id .load => L.useName id
  | .name id .store | .name id .del => L.target .bind id
  | .name _ .invalid | .literal _ => L.skip
  | .boolOp _ values => of_exprs kind values
  | .named target value => L.bind (of_expr kind value) (of_target kind .walrus target)
  | .binOp _ left right => L.bind (of_expr kind left) (of_expr kind right)
  | .unaryOp _ operand => of_expr kind operand
  | .lambda range (some parameters) body =>
      L.bind (of_parameterDefaults kind parameters) <|
        L.child (of_expr .function body) (L.openLambda range parameters)
  | .lambda range none body => L.child (of_expr .function body) (L.openPlain "<lambda>" range)
  | .ifExp test body orelse =>
      L.bind (of_expr kind test) (L.bind (of_expr kind body) (of_expr kind orelse))
  | .dict items => of_items kind items
  | .set elts => of_exprs kind elts
  | .listComp range elt generators =>
      of_comprehension kind "<listcomp>" range false generators (of_expr .comprehension elt)
  | .setComp range elt generators =>
      of_comprehension kind "<setcomp>" range false generators (of_expr .comprehension elt)
  | .generator range elt generators =>
      of_comprehension kind "<genexpr>" range true generators (of_expr .comprehension elt)
  | .dictComp range key value generators => by
      have whole := of_comprehension kind "<dictcomp>" range false generators
        (L.bind (of_expr .comprehension key) (of_expr .comprehension value))
      simp only [bind_assoc] at whole
      exact whole
  | .await value => L.flags (of_expr kind value) (·.isGenerator) fun _ ↦ true
  | .yield value => L.flags (of_option kind value) (fun _ ↦ true) (·.isAsync)
  | .yieldFrom value => L.flags (of_expr kind value) (fun _ ↦ true) (·.isAsync)
  | .compare left _ comparators => L.bind (of_expr kind left) (of_exprs kind comparators)
  | .call func args keywords =>
      L.bind (of_expr kind func) (L.bind (of_exprs kind args) (of_keywords kind keywords))
  | .fString elements | .tString elements => of_elements kind elements
  | .attribute value _ _ | .starred value _ => of_expr kind value
  | .subscript value slice _ => L.bind (of_expr kind value) (of_expr kind slice)
  | .list elts _ | .tuple elts _ => of_exprs kind elts
  | .slice lower upper step =>
      L.bind (of_option kind lower) (L.bind (of_option kind upper) (of_option kind step))

theorem of_exprs (kind : BlockKind) :
    ∀ exprs : List Expr, J kind (scanExprs exprs) (Python.exprsEvents exprs)
  | [] => L.skip
  | expr :: rest => L.bind (of_expr kind expr) (of_exprs kind rest)

theorem of_option (kind : BlockKind) :
    ∀ expr : Option Expr, J kind (scanOption expr) (Python.optionEvents expr)
  | none => L.skip
  | some expr => of_expr kind expr

theorem of_items (kind : BlockKind) :
    ∀ items : List DictItem, J kind (scanItems items) (Python.itemsEvents items)
  | [] => L.skip
  | .mk key value :: rest =>
      L.bind (of_option kind key) (L.bind (of_expr kind value) (of_items kind rest))

theorem of_keywords (kind : BlockKind) :
    ∀ keywords : List Keyword, J kind (scanKeywords keywords) (Python.keywordsEvents keywords)
  | [] => L.skip
  | .mk _ value :: rest => L.bind (of_expr kind value) (of_keywords kind rest)

theorem of_elements (kind : BlockKind) : ∀ elements : List InterpolatedStringElement,
    J kind (scanInterpolatedElements elements) (Python.elementsEvents elements)
  | [] => L.skip
  | .literal _ :: rest => of_elements kind rest
  | .interpolation expression formatSpec :: rest =>
      L.bind (of_expr kind expression) (L.bind (of_elements kind formatSpec) (of_elements kind rest))

theorem of_parameterDefaults (kind : BlockKind) : ∀ parameters : Parameters,
    J kind (scanParameterDefaults parameters) (Python.defaultEvents parameters)
  | .mk posonlyargs args _ kwonlyargs _ =>
      L.bind (of_defaults kind posonlyargs) (L.bind (of_defaults kind args) (of_defaults kind kwonlyargs))

theorem of_defaults (kind : BlockKind) : ∀ parameters : List ParameterWithDefault,
    J kind (scanDefaults parameters) (Python.defaultsEvents parameters)
  | [] => L.skip
  | .mk _ default :: rest => L.bind (of_option kind default) (of_defaults kind rest)

theorem of_comprehension (kind : BlockKind) (own : String) (range : TextRange) (isGenerator : Bool) :
    ∀ (generators : List Comprehension) {step : Scan} {element : List Event},
      J .comprehension step element →
      J kind (fun scope ↦ (do
        let (scope, child) ← scanComprehensionGenerators generators scope
          { kind := .comprehension, name := own, span := some range, isGenerator }
        let child ← step child
        .ok ((propagateComprehensionAsyncness child scope).addChild child)))
        (Python.comprehensionEvents own range generators element)
  | [], _, _ => fun _ ↦ L.malformed _
  | .mk target iter ifs isAsync :: rest, step, element => fun h ↦ by
      have inner := L.bind (of_target .comprehension .iterate target)
        (L.bind (of_exprs .comprehension ifs)
          (L.flags (L.bind (of_generators .comprehension rest) h) (·.isGenerator) (·.isAsync || isAsync)))
      have whole := L.comprehension own range isGenerator (of_expr kind iter) inner
      simp only [bind_assoc] at whole
      simp only [scanComprehensionGenerators_bind]
      exact whole

theorem of_generators (kind : BlockKind) : ∀ generators : List Comprehension,
    J kind (scanGenerators generators) (Python.generatorsEvents generators)
  | [] => L.skip
  | .mk target iter ifs isAsync :: rest =>
      L.bind (L.forbid true (of_expr kind iter)) <| L.bind (of_target kind .iterate target) <|
        L.bind (of_exprs kind ifs) <|
          L.flags (of_generators kind rest) (·.isGenerator) (·.isAsync || isAsync)

theorem of_target (kind : BlockKind) {binding : String → Event} (isTarget : IsTarget binding) :
    ∀ target : Expr, J kind (bindTarget target) (Python.targetEvents binding target)
  | .name id .store | .name id .del => L.target isTarget id
  | .tuple elts _ | .list elts _ => of_targets kind isTarget elts
  | .starred value _ => of_target kind isTarget value
  | .attribute value _ _ => of_expr kind value
  | .subscript value slice _ => L.bind (of_expr kind value) (of_expr kind slice)
  | .name _ .load | .name _ .invalid | .boolOp .. | .named .. | .binOp .. | .unaryOp .. | .lambda ..
  | .ifExp .. | .dict _ | .set _ | .listComp .. | .setComp .. | .dictComp .. | .generator ..
  | .await _ | .yield _ | .yieldFrom _ | .compare .. | .call .. | .fString _ | .tString _ | .literal _
  | .slice .. => L.skip

theorem of_targets (kind : BlockKind) {binding : String → Event} (isTarget : IsTarget binding) :
    ∀ targets : List Expr, J kind (bindTargets targets) (Python.targetsEvents binding targets)
  | [] => L.skip
  | target :: rest => L.bind (of_target kind isTarget target) (of_targets kind isTarget rest)

end

theorem of_names (kind : BlockKind) : ∀ names : List String,
    J kind (fun scope ↦ .ok (scope.bindAll names)) (names.map .bind)
  | [] => L.skip
  | name :: rest => L.bind (L.target .bind name) (of_names kind rest)

mutual

theorem of_pattern (kind : BlockKind) :
    ∀ pattern : Pattern, J kind (bindPattern pattern) (Python.patternEvents pattern)
  | .matchValue value => L.of_expr kind value
  | .matchSingleton => L.skip
  | .matchSequence patterns | .matchOr patterns => of_patterns kind patterns
  | .matchMapping keys patterns rest =>
      L.bind (L.of_exprs kind keys) (L.bind (of_patterns kind patterns) (L.of_names kind rest.toList))
  | .matchClass cls patterns keywords =>
      L.bind (L.of_expr kind cls)
        (L.bind (of_patterns kind patterns) (of_patternKeywords kind keywords))
  | .matchStar name => L.of_names kind name.toList
  | .matchAs (some pattern) name => L.bind (of_pattern kind pattern) (L.of_names kind name.toList)
  | .matchAs none name => L.bind L.skip (L.of_names kind name.toList)

theorem of_patterns (kind : BlockKind) :
    ∀ patterns : List Pattern, J kind (bindPatterns patterns) (Python.patternsEvents patterns)
  | [] => L.skip
  | pattern :: rest => L.bind (of_pattern kind pattern) (of_patterns kind rest)

theorem of_patternKeywords (kind : BlockKind) : ∀ keywords : List PatternKeyword,
    J kind (bindPatternKeywords keywords) (Python.patternKeywordsEvents keywords)
  | [] => L.skip
  | .mk _ pattern :: rest => L.bind (of_pattern kind pattern) (of_patternKeywords kind rest)

end

theorem of_withItems (kind : BlockKind) :
    ∀ items : List WithItem, J kind (scanWithItems items) (Python.withItemsEvents items)
  | [] => L.skip
  | { contextExpr, optionalVars := some target } :: rest =>
      L.bind (L.of_expr kind contextExpr)
        (L.bind (L.of_target kind .bind target) (of_withItems kind rest))
  | { contextExpr, optionalVars := none } :: rest =>
      L.bind (L.of_expr kind contextExpr) (L.bind L.skip (of_withItems kind rest))

theorem of_import (kind : BlockKind) : ∀ names : List Alias,
    J kind (fun scope ↦ .ok (scope.bindAll (names.map importBindingName)))
      (names.flatMap Python.importEvents)
  | [] => L.skip
  | imported :: rest => by
    have first : J kind (fun scope ↦ .ok (scope.bind (importBindingName imported)))
        (Python.importEvents imported) := by
      unfold Python.importEvents
      split
      · exact L.bind L.importStar (L.target .bind _)
      · exact L.target .bind _
    exact L.bind first (of_import kind rest)

theorem of_globals {kind : BlockKind} (isKind : kind ≠ .annotations) :
    ∀ names : List String, J kind (declareGlobals names) (names.map .global)
  | [] => L.skip
  | name :: rest => by
    have whole := L.bind (L.declareGlobal isKind name) (of_globals isKind rest)
    simp only [bind_assoc] at whole
    exact whole

theorem of_nonlocals {kind : BlockKind} (isKind : kind ≠ .annotations) :
    ∀ names : List String, J kind (declareNonlocals names) (names.map .nonlocal)
  | [] => L.skip
  | name :: rest => by
    have whole := L.bind (L.declareNonlocal isKind name) (of_nonlocals isKind rest)
    simp only [bind_assoc] at whole
    exact whole

theorem of_annotatedTarget (kind : BlockKind) (target : Expr) (simple hasValue : Bool) :
    J kind (bindTarget target) (Python.annotatedTargetEvents target simple hasValue) := by
  have named (id : String) : J kind (fun scope ↦ .ok (scope.bind id))
      (if simple then [.annotated id] else if hasValue then [.bind id] else [.bareAnnotated id]) := by
    split_ifs
    · exact L.annotatedTarget id _ (.inl rfl)
    · exact L.target .bind id
    · exact L.annotatedTarget id _ (.inr rfl)
  unfold Python.annotatedTargetEvents
  split
  · exact named _
  · exact named _
  · exact L.of_target kind .bind target

theorem of_functionAnnotations (kind : BlockKind) (range : TextRange) (parameters : Parameters)
    (returns : Option Expr) {active : List String} (admits : Admits active) :
    J kind (scanFunctionAnnotations range parameters returns active)
      (Python.functionAnnotationEvents range parameters returns) := by
  have body : J kind _ _ := L.child (L.bind (L.of_option .annotations returns)
    (L.of_exprs .annotations (parameterAnnotations parameters))) (L.openAnnotations range admits)
  simp only [bind_assoc] at body
  unfold scanFunctionAnnotations Python.functionAnnotationEvents
  split
  · exact body
  · exact L.skip

mutual

theorem of_stmt {kind : BlockKind} (hasBody : kind.HasBody) :
    ∀ stmt : Stmt, J kind (scanStmt stmt) (Python.stmtEvents kind stmt)
  | .functionDef range isAsync decoratorList name typeParams parameters returns body => by
    have definition : J kind _ _ := L.generic (fun active scope ↦ do
        let scope ← scanFunctionAnnotations range parameters returns active scope
        let child := functionBuilder range name isAsync parameters
        let child ← scanBody body { child with activeTypeParams := active }
        .ok (scope.addChild child)) name range typeParams fun active admits ↦
      L.bind (L.of_functionAnnotations kind range parameters returns admits)
        (L.child (of_body (.inr (.inl rfl)) body) (L.openFunction name range isAsync parameters admits))
    exact L.bind (L.of_exprs kind decoratorList) (L.bind (L.of_parameterDefaults kind parameters)
      (L.bind (L.target .bind name) definition))
  | .classDef range decoratorList name typeParams args keywords body => by
    have definition : J kind _ _ := L.generic (fun active scope ↦ do
        let child ← scanBody body
          { kind := .class_, name, span := some range, activeTypeParams := active }
        .ok (scope.addChild child)) name range typeParams fun active admits ↦
      L.child (of_body (.inr (.inr rfl)) body) (L.openClass name range admits)
    have whole := L.bind (L.of_exprs kind args) (L.bind (L.of_keywords kind keywords)
      (L.bind (L.target .bind name) definition))
    refine L.bind (L.of_exprs kind decoratorList) ?_
    cases typeParams with
    | nil => exact whole
    | cons param params =>
      rw [← List.append_assoc, ← List.append_assoc] at whole
      exact L.header whole
  | .ret value => L.of_option kind value
  | .delete targets => L.of_targets kind .bind targets
  | .typeAlias range name typeParams value => by
    have definition : J kind _ _ := L.generic (fun active scope ↦ do
        let thunk ← scanExpr value { annotateBuilder typeAliasScopeName active with span := some range }
        .ok (scope.addChild thunk)) typeAliasScopeName range typeParams fun active admits ↦
      L.child (L.of_expr .typeAlias value) (L.openAlias range admits)
    exact L.bind (L.of_target kind .bind name) definition
  | .assign targets value => L.bind (L.of_expr kind value) (L.of_targets kind .bind targets)
  | .augAssign target _ value =>
      L.bind (L.of_expr kind target) (L.bind (L.of_expr kind value) (L.of_target kind .bind target))
  | .annAssign target annotation simple value =>
      L.bind (L.annotated fun kind ↦ L.of_expr kind annotation)
        (L.bind (L.of_option kind value) (L.of_annotatedTarget kind target simple value.isSome))
  | .for_ _ target iter body orelse =>
      L.bind (L.of_expr kind iter) (L.bind (L.of_target kind .bind target)
        (L.bind (of_body hasBody body) (of_body hasBody orelse)))
  | .while_ test body orelse =>
      L.bind (L.of_expr kind test) (L.bind (of_body hasBody body) (of_body hasBody orelse))
  | .if_ test body elifElseClauses =>
      L.bind (L.of_expr kind test) (L.bind (of_body hasBody body) (of_clauses hasBody elifElseClauses))
  | .with_ _ items body => L.bind (L.of_withItems kind items) (of_body hasBody body)
  | .match_ subject cases_ => L.bind (L.of_expr kind subject) (of_cases hasBody cases_)
  | .raise exc cause => L.bind (L.of_option kind exc) (L.of_option kind cause)
  | .try_ _ body handlers orelse finalbody =>
      L.bind (of_body hasBody body) (L.bind (of_handlers hasBody handlers)
        (L.bind (of_body hasBody orelse) (of_body hasBody finalbody)))
  | .assert_ test msg => L.bind (L.of_expr kind test) (L.of_option kind msg)
  | .import_ names | .importFrom _ names _ => L.of_import kind names
  | .global names => L.of_globals hasBody.ne_annotations names
  | .nonlocal names => L.of_nonlocals hasBody.ne_annotations names
  | .expr value => L.of_expr kind value
  | .pass | .brk | .cont => L.skip

theorem of_body {kind : BlockKind} (hasBody : kind.HasBody) :
    ∀ body : List Stmt, J kind (scanBody body) (Python.bodyEvents kind body)
  | [] => L.skip
  | stmt :: rest => L.bind (of_stmt hasBody stmt) (of_body hasBody rest)

theorem of_clauses {kind : BlockKind} (hasBody : kind.HasBody) : ∀ clauses : List ElifElseClause,
    J kind (scanClauses clauses) (Python.clausesEvents kind clauses)
  | [] => L.skip
  | .mk test body :: rest =>
      L.bind (L.of_option kind test) (L.bind (of_body hasBody body) (of_clauses hasBody rest))

theorem of_cases {kind : BlockKind} (hasBody : kind.HasBody) :
    ∀ cases_ : List MatchCase, J kind (scanCases cases_) (Python.casesEvents kind cases_)
  | [] => L.skip
  | .mk pattern guard body :: rest =>
      L.bind (L.of_pattern kind pattern) (L.bind (L.of_option kind guard)
        (L.bind (of_body hasBody body) (of_cases hasBody rest)))

theorem of_handlers {kind : BlockKind} (hasBody : kind.HasBody) : ∀ handlers : List ExceptHandler,
    J kind (scanHandlers handlers) (Python.handlersEvents kind handlers)
  | [] => L.skip
  | .mk type_ name body :: rest => by
      have handled := L.bind (L.of_names kind name.toList)
        (L.bind (of_body hasBody body) (of_handlers hasBody rest))
      exact L.bind (L.of_option kind type_) handled

end

end Closed

end Pon.Scope
