import Pon.Scope.Builder

/-!
# Python's scoping rules

The rules of the language for names, stated apart from the frontend. A walk over the syntax records
for each block of code what it does with names, in source order, together with the blocks nested in
it. Which declarations are accepted and what a name refers to are then read off these records.
-/

namespace Pon.Scope.Python

open Ast

/-- The kinds of blocks. The last three are the blocks of evaluated annotations, of the value of a
`type` statement and of type parameters. -/
inductive BlockKind where
  | module | function | class_ | comprehension | annotations | typeAlias | typeParams
  deriving DecidableEq

/-- Something that a block does with a name, or a block nested in it. -/
inductive Event where
  | use (name : String)
  | bind (name : String)
  | param (name : String)
  /-- A comprehension binds an iteration variable. -/
  | iterate (name : String)
  | walrus (name : String)
  /-- An assignment expression where none may stand: in an iterable of a comprehension, or in the
  annotation of a local variable. -/
  | misplacedWalrus (name : String)
  | annotated (name : String)
  /-- An annotated name in parentheses and without a value, which binds nothing. -/
  | bareAnnotated (name : String)
  | importStar
  | global (name : String)
  | nonlocal (name : String)
  /-- A comprehension without a `for` clause. -/
  | malformed
  /-- The annotation of a variable of a module or class body; it is evaluated later. -/
  | deferred (events : List Event)
  | block (kind : BlockKind) (name : String) (span : Option TextRange) (events : List Event)

structure Block where
  kind : BlockKind
  name : String
  span : Option TextRange
  events : List Event

mutual

/-- Marks the assignment expressions among the events as misplaced: those of the block itself with
its comprehensions, and with `deep` also those of the functions inside. -/
def forbidWalrus (deep : Bool) : List Event → List Event
  | [] => []
  | event :: rest => event.forbidWalrus deep :: forbidWalrus deep rest

def Event.forbidWalrus (deep : Bool) : Event → Event
  | .walrus name => .misplacedWalrus name
  | .block kind name span events =>
      if deep || kind = .comprehension then .block kind name span (Python.forbidWalrus deep events)
      else .block kind name span events
  | event => event

end

def paramEvents : Parameters → List Event
  | .mk posonlyargs args vararg kwonlyargs kwarg =>
      let name := fun (parameter : ParameterWithDefault) ↦ parameter.parameter.name
      ((posonlyargs ++ args).map name ++ (vararg.map Parameter.name).toList ++
        kwonlyargs.map name ++ (kwarg.map Parameter.name).toList).map .param

mutual

def exprEvents : Expr → List Event
  | .name id .load => [.use id]
  | .name id .store | .name id .del => [.bind id]
  | .name _ .invalid | .literal _ => []
  | .boolOp _ values => exprsEvents values
  | .named target value => exprEvents value ++ targetEvents .walrus target
  | .binOp _ left right => exprEvents left ++ exprEvents right
  | .unaryOp _ operand => exprEvents operand
  | .lambda range (some parameters) body =>
      defaultEvents parameters ++
        [.block .function "<lambda>" (some range) (paramEvents parameters ++ exprEvents body)]
  | .lambda range none body => [.block .function "<lambda>" (some range) (exprEvents body)]
  | .ifExp test body orelse => exprEvents test ++ (exprEvents body ++ exprEvents orelse)
  | .dict items => itemsEvents items
  | .set elts => exprsEvents elts
  | .listComp range elt generators =>
      comprehensionEvents "<listcomp>" range generators (exprEvents elt)
  | .setComp range elt generators =>
      comprehensionEvents "<setcomp>" range generators (exprEvents elt)
  | .dictComp range key value generators =>
      comprehensionEvents "<dictcomp>" range generators (exprEvents key ++ exprEvents value)
  | .generator range elt generators =>
      comprehensionEvents "<genexpr>" range generators (exprEvents elt)
  | .await value | .yieldFrom value => exprEvents value
  | .yield value => optionEvents value
  | .compare left _ comparators => exprEvents left ++ exprsEvents comparators
  | .call func args keywords =>
      exprEvents func ++ (exprsEvents args ++ keywordsEvents keywords)
  | .fString elements | .tString elements => elementsEvents elements
  | .attribute value _ _ | .starred value _ => exprEvents value
  | .subscript value slice _ => exprEvents value ++ exprEvents slice
  | .list elts _ | .tuple elts _ => exprsEvents elts
  | .slice lower upper step => optionEvents lower ++ (optionEvents upper ++ optionEvents step)

def exprsEvents : List Expr → List Event
  | [] => []
  | expr :: rest => exprEvents expr ++ exprsEvents rest

def optionEvents : Option Expr → List Event
  | none => []
  | some expr => exprEvents expr

def itemsEvents : List DictItem → List Event
  | [] => []
  | .mk key value :: rest => optionEvents key ++ (exprEvents value ++ itemsEvents rest)

def keywordsEvents : List Keyword → List Event
  | [] => []
  | .mk _ value :: rest => exprEvents value ++ keywordsEvents rest

def elementsEvents : List InterpolatedStringElement → List Event
  | [] => []
  | .literal _ :: rest => elementsEvents rest
  | .interpolation expression formatSpec :: rest =>
      exprEvents expression ++ (elementsEvents formatSpec ++ elementsEvents rest)

def defaultEvents : Parameters → List Event
  | .mk posonlyargs args _ kwonlyargs _ =>
      defaultsEvents posonlyargs ++ (defaultsEvents args ++ defaultsEvents kwonlyargs)

def defaultsEvents : List ParameterWithDefault → List Event
  | [] => []
  | .mk _ default :: rest => optionEvents default ++ defaultsEvents rest

/-- The first iterable is evaluated in the enclosing block, and the rest in the comprehension. -/
def comprehensionEvents (name : String) (range : TextRange) :
    List Comprehension → List Event → List Event
  | [], _ => [.malformed]
  | .mk target iter ifs _ :: rest, element =>
      forbidWalrus true (exprEvents iter) ++
        [.block .comprehension name (some range)
          (.param ".0" :: (targetEvents .iterate target ++ (exprsEvents ifs ++
            (generatorsEvents rest ++ element))))]

def generatorsEvents : List Comprehension → List Event
  | [] => []
  | .mk target iter ifs _ :: rest =>
      forbidWalrus true (exprEvents iter) ++ (targetEvents .iterate target ++ (exprsEvents ifs ++
        generatorsEvents rest))

/-- A target binds its names; its subscripts and attribute values are evaluated. -/
def targetEvents (binding : String → Event) : Expr → List Event
  | .name id .store | .name id .del => [binding id]
  | .tuple elts _ | .list elts _ => targetsEvents binding elts
  | .starred value _ => targetEvents binding value
  | .attribute value _ _ => exprEvents value
  | .subscript value slice _ => exprEvents value ++ exprEvents slice
  | _ => []

def targetsEvents (binding : String → Event) : List Expr → List Event
  | [] => []
  | target :: rest => targetEvents binding target ++ targetsEvents binding rest

end

mutual

def patternEvents : Pattern → List Event
  | .matchValue value => exprEvents value
  | .matchSingleton => []
  | .matchSequence patterns | .matchOr patterns => patternsEvents patterns
  | .matchMapping keys patterns rest =>
      exprsEvents keys ++ (patternsEvents patterns ++ rest.toList.map .bind)
  | .matchClass cls patterns keywords =>
      exprEvents cls ++ (patternsEvents patterns ++ patternKeywordsEvents keywords)
  | .matchStar name => name.toList.map .bind
  | .matchAs (some pattern) name => patternEvents pattern ++ name.toList.map .bind
  | .matchAs none name => name.toList.map .bind

def patternsEvents : List Pattern → List Event
  | [] => []
  | pattern :: rest => patternEvents pattern ++ patternsEvents rest

def patternKeywordsEvents : List PatternKeyword → List Event
  | [] => []
  | .mk _ pattern :: rest => patternEvents pattern ++ patternKeywordsEvents rest

end

def withItemsEvents : List WithItem → List Event
  | [] => []
  | { contextExpr, optionalVars } :: rest =>
      exprEvents contextExpr ++ ((optionalVars.map (targetEvents .bind)).getD [] ++
        withItemsEvents rest)

/-- The names of a star import are not known; they stand as `*`. -/
def importEvents (imported : Alias) : List Event :=
  if imported.name = "*" then [.importStar, .bind (importBindingName imported)]
  else [.bind (importBindingName imported)]

/-- The annotation of a name of a module or class body is deferred; the names in any other annotation
count as uses of the block. -/
def annotationEvents (kind : BlockKind) (target annotation : Expr) : List Event :=
  match kind, target with
  | .module, .name .. | .class_, .name .. => [.deferred (exprEvents annotation)]
  | _, _ => forbidWalrus false (exprEvents annotation)

def annotatedTargetEvents (target : Expr) (simple hasValue : Bool) : List Event :=
  match target with
  | .name id .store | .name id .del =>
      if simple then [.annotated id] else if hasValue then [.bind id] else [.bareAnnotated id]
  | target => targetEvents .bind target

/-- The annotations of a function form a block next to the block of its body. -/
def functionAnnotationEvents (range : TextRange) (parameters : Parameters)
    (returns : Option Expr) : List Event :=
  if functionDefHasAnnotations parameters returns then
    [.block .annotations "__annotate__" (some range)
      (optionEvents returns ++ exprsEvents (parameterAnnotations parameters))]
  else []

/-- Type parameters form a block around the events of a generic definition. -/
def genericEvents (name : String) (range : TextRange) (typeParams : List String)
    (events : List Event) : List Event :=
  if typeParams.isEmpty then events
  else [.block .typeParams name (some range) (typeParams.map .bind ++ events)]

mutual

/-- The events of a statement in a block of the given kind. The target of an augmented assignment is
read and then bound. -/
def stmtEvents (kind : BlockKind) : Stmt → List Event
  | .functionDef range _ decoratorList name typeParams parameters returns body =>
      exprsEvents decoratorList ++ (defaultEvents parameters ++ (.bind name ::
        genericEvents name range typeParams (functionAnnotationEvents range parameters returns ++
          [.block .function name (some range) (paramEvents parameters ++ bodyEvents .function body)])))
  | .classDef range decoratorList name typeParams args keywords body =>
      exprsEvents decoratorList ++
        if typeParams.isEmpty then
          exprsEvents args ++ (keywordsEvents keywords ++
            [.bind name, .block .class_ name (some range) (bodyEvents .class_ body)])
        else
          .bind name :: genericEvents name range typeParams (exprsEvents args ++
            (keywordsEvents keywords ++ [.block .class_ name (some range) (bodyEvents .class_ body)]))
  | .ret value => optionEvents value
  | .delete targets => targetsEvents .bind targets
  | .typeAlias range name typeParams value =>
      targetEvents .bind name ++ genericEvents "<type_alias>" range typeParams
        [.block .typeAlias "<type_alias>" (some range) (exprEvents value)]
  | .assign targets value => exprEvents value ++ targetsEvents .bind targets
  | .augAssign target _ value =>
      exprEvents target ++ (exprEvents value ++ targetEvents .bind target)
  | .annAssign target annotation simple value =>
      annotationEvents kind target annotation ++ (optionEvents value ++
        annotatedTargetEvents target simple value.isSome)
  | .for_ _ target iter body orelse =>
      exprEvents iter ++ (targetEvents .bind target ++ (bodyEvents kind body ++ bodyEvents kind orelse))
  | .while_ test body orelse =>
      exprEvents test ++ (bodyEvents kind body ++ bodyEvents kind orelse)
  | .if_ test body elifElseClauses =>
      exprEvents test ++ (bodyEvents kind body ++ clausesEvents kind elifElseClauses)
  | .with_ _ items body => withItemsEvents items ++ bodyEvents kind body
  | .match_ subject cases_ => exprEvents subject ++ casesEvents kind cases_
  | .raise exc cause => optionEvents exc ++ optionEvents cause
  | .try_ _ body handlers orelse finalbody =>
      bodyEvents kind body ++ (handlersEvents kind handlers ++ (bodyEvents kind orelse ++
        bodyEvents kind finalbody))
  | .assert_ test msg => exprEvents test ++ optionEvents msg
  | .import_ names | .importFrom _ names _ => names.flatMap importEvents
  | .global names => names.map .global
  | .nonlocal names => names.map .nonlocal
  | .expr value => exprEvents value
  | .pass | .brk | .cont => []

def bodyEvents (kind : BlockKind) : List Stmt → List Event
  | [] => []
  | stmt :: rest => stmtEvents kind stmt ++ bodyEvents kind rest

def clausesEvents (kind : BlockKind) : List ElifElseClause → List Event
  | [] => []
  | .mk test body :: rest =>
      optionEvents test ++ (bodyEvents kind body ++ clausesEvents kind rest)

def casesEvents (kind : BlockKind) : List MatchCase → List Event
  | [] => []
  | .mk pattern guard body :: rest =>
      patternEvents pattern ++ (optionEvents guard ++ (bodyEvents kind body ++ casesEvents kind rest))

def handlersEvents (kind : BlockKind) : List ExceptHandler → List Event
  | [] => []
  | .mk type_ name body :: rest =>
      optionEvents type_ ++ (name.toList.map .bind ++ (bodyEvents kind body ++
        handlersEvents kind rest))

end

def moduleBlock (body : List Stmt) : Block :=
  { kind := .module, name := "__main__", span := none, events := bodyEvents .module body }

mutual

/-- The targets of the assignment expressions in a comprehension and in the comprehensions directly
inside it: they are bound in the nearest enclosing block that is not a comprehension. -/
def hoisted : List Event → List String
  | [] => []
  | event :: rest => event.hoisted ++ hoisted rest

def Event.hoisted : Event → List String
  | .walrus name => [name]
  | .block .comprehension _ _ events => Python.hoisted events
  | _ => []

end

namespace Event

/-- The names that an event binds in a block of the given kind. -/
def binds (kind : BlockKind) : Event → List String
  | .bind name | .param name | .iterate name | .annotated name => [name]
  | .walrus name => if kind = .comprehension then [] else [name]
  | .block .comprehension _ _ events => if kind = .comprehension then [] else Python.hoisted events
  | _ => []

def uses (kind : BlockKind) : Event → List String
  | .use name => [name]
  | .walrus name => if kind = .comprehension then [name] else []
  | _ => []

def iterates : Event → List String
  | .iterate name => [name]
  | _ => []

def params : Event → List String
  | .param name => [name]
  | _ => []

def globals : Event → List String
  | .global name => [name]
  | _ => []

def nonlocals : Event → List String
  | .nonlocal name => [name]
  | _ => []

def deferrals : Event → List (List Event)
  | .deferred events => [events]
  | _ => []

def blocks : Event → List Block
  | .block kind name span events => [{ kind, name, span, events }]
  | _ => []

end Event

/-- Blocks whose names are local variables. -/
def BlockKind.isFunctionLike : BlockKind → Bool
  | .module | .class_ => false
  | _ => true

/-- Blocks that see the names of a class body around them. -/
def BlockKind.seesClass : BlockKind → Bool
  | .annotations | .typeAlias | .typeParams => true
  | _ => false

namespace Block

variable (block : Block)

def bound : List String := block.events.flatMap (Event.binds block.kind)

def used : List String := block.events.flatMap (Event.uses block.kind)

def globals : List String := block.events.flatMap Event.globals

def nonlocals : List String := block.events.flatMap Event.nonlocals

/-- The names that occur in a block. -/
def occurrences : List String :=
  block.used ++ block.bound ++ block.globals ++ block.nonlocals

/-- The deferred annotations of a module or class body are evaluated in one block. -/
def annotations : Option Block :=
  match block.events.flatMap Event.deferrals with
  | [] => none
  | deferrals =>
      some { kind := .annotations, name := "__annotate__", span := none, events := deferrals.flatten }

/-- The blocks nested directly in a block, the block of its deferred annotations first. -/
def children : List Block :=
  block.annotations.toList ++ block.events.flatMap Event.blocks

end Block

/-- A condition on the events of a block and of all blocks inside it; it is about an event, the kind
of its block and the events before it. -/
inductive Throughout (P : BlockKind → List Event → Event → Prop) : Block → Prop
  | intro {block : Block}
      (here : ∀ before event after, block.events = before ++ event :: after → P block.kind before event)
      (inner : ∀ child ∈ block.children, Throughout P child) : Throughout P block

/-- The name is used, bound or a parameter in the events of a block. -/
def Mentions (kind : BlockKind) (events : List Event) (name : String) : Prop :=
  name ∈ events.flatMap (Event.uses kind) ∨ name ∈ events.flatMap (Event.binds kind)

/-- The declarations that may follow the earlier events of a block. Nothing binds the constant
`__debug__`. -/
def Event.Legal (kind : BlockKind) (before : List Event) : Event → Prop
  | .param name => name ≠ "__debug__" ∧ name ∉ before.flatMap Event.params
  -- two type parameters of one name
  | .bind name => name ≠ "__debug__" ∧ (kind = .typeParams → name ∉ before.flatMap (Event.binds kind))
  | .iterate name => name ≠ "__debug__"
  | .global name => ¬Mentions kind before name ∧ name ∉ before.flatMap Event.nonlocals
  | .nonlocal name => ¬Mentions kind before name ∧ name ∉ before.flatMap Event.globals
  | .annotated name =>
      name ≠ "__debug__" ∧
        (kind = .module ∨ name ∉ before.flatMap Event.globals ∧ name ∉ before.flatMap Event.nonlocals)
  | .importStar => kind = .module
  | .walrus name => name ≠ "__debug__" ∧ kind.seesClass = false
  | .misplacedWalrus _ | .malformed => False
  | .block .comprehension _ _ events =>
      -- an assignment expression needs a function or module to bind in, and its target is not an
      -- iteration variable
      Python.hoisted events = [] ∨
        (kind = .module ∨ kind = .function ∨ kind = .comprehension) ∧
          ∀ name ∈ Python.hoisted events, name ∉ events.flatMap Event.iterates
  | _ => True

/-- What a name refers to: a local variable, a variable of an enclosing function, a variable of the
module, or the namespace of a class body. -/
inductive Resolution where
  | local | free | global | namespace
  deriving DecidableEq

/-- What a name that an inner block leaves open refers to, given the blocks around it from the inside
out. The names of a class body are seen only by the blocks that `sees` marks; functions inside a
class see its implicit `__class__`. -/
def outward (name : String) : Bool → List Block → Resolution
  | _, [] => .global
  | sees, block :: outer =>
      match block.kind with
      | .module => .global
      | .class_ =>
          if sees && name ∈ block.globals then .global
          else if sees && name ∈ block.bound && name ∉ block.nonlocals then .namespace
          else if name = "__class__" then .free
          else outward name false outer
      | .typeParams => if name ∈ block.bound then .free else outward name sees outer
      | _ =>
          if name ∈ block.globals then .global
          else if name ∈ block.nonlocals then outward name false outer
          else if name ∈ block.bound then .free
          else outward name false outer

def Block.resolve (block : Block) (outer : List Block) (name : String) : Resolution :=
  if block.kind = .module ∨ name ∈ block.globals then .global
  else if name ∈ block.nonlocals then .free
  else if name ∈ block.bound then if block.kind = .class_ then .namespace else .local
  else outward name block.kind.seesClass outer

/-- Every nonlocal name of the block and of the blocks inside it is a variable of an enclosing
function. -/
inductive NonlocalsFound : Block → List Block → Prop
  | intro {block : Block} {outer : List Block}
      (found : ∀ name ∈ block.nonlocals, outward name false outer = .free)
      (inner : ∀ child ∈ block.children, NonlocalsFound child (block :: outer)) :
      NonlocalsFound block outer

/-- The declarations of a module are accepted. -/
def Accepts (body : List Stmt) : Prop :=
  Throughout Event.Legal (moduleBlock body) ∧ NonlocalsFound (moduleBlock body) []

end Pon.Scope.Python
