import Mathlib.Data.Nat.Notation

/-!
# Python syntax trees

The syntax trees that the frontend reads. Every construct of the language is here; of the data at
its leaves (numbers, literal texts, conversions) the trees keep what the frontend looks at. A node
that opens a scope carries its range in the source.
-/

namespace Pon.Ast

/-- A byte range of the source. -/
structure TextRange where
  start : ℕ
  stop : ℕ
  deriving DecidableEq

inductive ExprContext where
  | load | store | del | invalid
  deriving DecidableEq

inductive Operator where
  | add | sub | mult | matMult | div | mod | pow | lShift | rShift | bitOr | bitXor | bitAnd
  | floorDiv

inductive UnaryOp where
  | invert | not | uAdd | uSub

inductive CmpOp where
  | eq | notEq | lt | ltE | gt | gtE | is | isNot | in_ | notIn

mutual

inductive Expr where
  | boolOp (isAnd : Bool) (values : List Expr)
  | named (target value : Expr)
  | binOp (op : Operator) (left right : Expr)
  | unaryOp (op : UnaryOp) (operand : Expr)
  | lambda (range : TextRange) (parameters : Option Parameters) (body : Expr)
  | ifExp (test body orelse : Expr)
  | dict (items : List DictItem)
  | set (elts : List Expr)
  | listComp (range : TextRange) (elt : Expr) (generators : List Comprehension)
  | setComp (range : TextRange) (elt : Expr) (generators : List Comprehension)
  | dictComp (range : TextRange) (key value : Expr) (generators : List Comprehension)
  | generator (range : TextRange) (elt : Expr) (generators : List Comprehension)
  | await (value : Expr)
  | yield (value : Option Expr)
  | yieldFrom (value : Expr)
  | compare (left : Expr) (ops : List CmpOp) (comparators : List Expr)
  | call (func : Expr) (args : List Expr) (keywords : List Keyword)
  | fString (elements : List InterpolatedStringElement)
  | tString (elements : List InterpolatedStringElement)
  | literal (text : String)
  | attribute (value : Expr) (attr : String) (ctx : ExprContext)
  | subscript (value slice : Expr) (ctx : ExprContext)
  | starred (value : Expr) (ctx : ExprContext)
  | name (id : String) (ctx : ExprContext)
  | list (elts : List Expr) (ctx : ExprContext)
  | tuple (elts : List Expr) (ctx : ExprContext)
  | slice (lower upper step : Option Expr)

/-- A `key: value` item of a dictionary display, or a `**value` item without a key. -/
inductive DictItem where
  | mk (key : Option Expr) (value : Expr)

inductive Comprehension where
  | mk (target iter : Expr) (ifs : List Expr) (isAsync : Bool)

/-- A keyword argument, or a `**value` argument without a name. -/
inductive Keyword where
  | mk (arg : Option String) (value : Expr)

inductive InterpolatedStringElement where
  | literal (text : String)
  | interpolation (expression : Expr) (formatSpec : List InterpolatedStringElement)

inductive Parameters where
  | mk (posonlyargs args : List ParameterWithDefault) (vararg : Option Parameter)
      (kwonlyargs : List ParameterWithDefault) (kwarg : Option Parameter)

inductive Parameter where
  | mk (name : String) ( annotation : Option Expr)

inductive ParameterWithDefault where
  | mk (parameter : Parameter) (default : Option Expr)

end

mutual

inductive Pattern where
  | matchValue (value : Expr)
  | matchSingleton
  | matchSequence (patterns : List Pattern)
  | matchMapping (keys : List Expr) (patterns : List Pattern) (rest : Option String)
  | matchClass (cls : Expr) (patterns : List Pattern) (keywords : List PatternKeyword)
  | matchStar (name : Option String)
  | matchAs (pattern : Option Pattern) (name : Option String)
  | matchOr (patterns : List Pattern)

inductive PatternKeyword where
  | mk (attr : String) (pattern : Pattern)

end

/-- An imported name with its optional `as` name. -/
structure Alias where
  name : String
  asname : Option String

structure WithItem where
  contextExpr : Expr
  optionalVars : Option Expr

mutual

inductive Stmt where
  | functionDef (range : TextRange) (isAsync : Bool) (decoratorList : List Expr) (name : String)
      (typeParams : List String) (parameters : Parameters) (returns : Option Expr)
      (body : List Stmt)
  | classDef (range : TextRange) (decoratorList : List Expr) (name : String)
      (typeParams : List String) (args : List Expr) (keywords : List Keyword) (body : List Stmt)
  | ret (value : Option Expr)
  | delete (targets : List Expr)
  | typeAlias (range : TextRange) (name : Expr) (typeParams : List String) (value : Expr)
  | assign (targets : List Expr) (value : Expr)
  | augAssign (target : Expr) (op : Operator) (value : Expr)
  | annAssign (target annotation : Expr) (simple : Bool) (value : Option Expr)
  | for_ (isAsync : Bool) (target iter : Expr) (body orelse : List Stmt)
  | while_ (test : Expr) (body orelse : List Stmt)
  | if_ (test : Expr) (body : List Stmt) (elifElseClauses : List ElifElseClause)
  | with_ (isAsync : Bool) (items : List WithItem) (body : List Stmt)
  | match_ (subject : Expr) (cases_ : List MatchCase)
  | raise (exc cause : Option Expr)
  | try_ (isStar : Bool) (body : List Stmt) (handlers : List ExceptHandler)
      (orelse finalbody : List Stmt)
  | assert_ (test : Expr) (msg : Option Expr)
  | import_ (names : List Alias)
  | importFrom (module : Option String) (names : List Alias) (level : ℕ)
  | global (names : List String)
  | nonlocal (names : List String)
  | expr (value : Expr)
  | pass
  | brk
  | cont

/-- An `elif` clause, or an `else` clause without a test. -/
inductive ElifElseClause where
  | mk (test : Option Expr) (body : List Stmt)

inductive MatchCase where
  | mk (pattern : Pattern) (guard : Option Expr) (body : List Stmt)

inductive ExceptHandler where
  | mk (type_ : Option Expr) (name : Option String) (body : List Stmt)

end

def ParameterWithDefault.default : ParameterWithDefault → Option Expr
  | mk _ default => default

def ParameterWithDefault.parameter : ParameterWithDefault → Parameter
  | mk parameter _ => parameter

def Parameter.name : Parameter → String
  | mk name _ => name

def Parameter.annotated : Parameter → Option Expr
  | mk _ annotation => annotation

def Comprehension.isAsync : Comprehension → Bool
  | mk _ _ _ isAsync => isAsync

end Pon.Ast
