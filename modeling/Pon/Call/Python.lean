import Pon.Call.Binding
import Pon.Lib.Association

/-!
# The call rules of Python

The rules say which calls a signature accepts, and what every parameter is bound to. A positional
parameter takes the value at its position, a parameter that is not positional-only takes the keyword
with its name, and no parameter takes two. What is left of the values goes to `*args` and
`**kwargs`, and what is left of the parameters takes a default.
-/

namespace Pon.Call.Python

variable {Name V : Type} [DecidableEq Name] (function : Function Name V) (positional : List V)
  (keywords : List (Name × V))

/-- The names of the parameters that a keyword may reach. -/
def keywordNames : List Name :=
  function.params.names.drop function.params.positionalOnlyCount

def positionalValue (index : ℕ) : Option V :=
  if index < function.params.positionalArity then positional[index]? else none

def keywordValue (index : ℕ) : Option V :=
  if function.params.positionalOnlyCount ≤ index then
    function.params.names[index]?.bind fun name ↦ keywords.lookup name
  else none

/-- The value that the call gives a parameter. -/
def supplied (index : ℕ) : Option V :=
  (positionalValue function positional index).or (keywordValue function keywords index)

def defaults : List V :=
  match function.defaultsOverride with
  | none => function.defaults
  | some stored => stored.getD []

def kwdefaults (name : Name) : Option V :=
  match function.kwdefaultsOverride with
  | none => function.kwdefaults name
  | some none => none
  | some (some dict) =>
    (dict.entries.find? fun entry ↦ entry.1.equal = some name).map Prod.snd

/-- The last positional parameter takes the last default, and so on towards the front. -/
def defaultValue (index : ℕ) : Option V :=
  if index < function.params.positionalArity then
    (defaults function).reverse[function.params.positionalArity - 1 - index]?
  else
    function.params.names[index]?.bind (kwdefaults function)

def parameter (index : ℕ) : Option V :=
  (supplied function positional keywords index).or (defaultValue function index)

def surplus : List V :=
  positional.drop function.params.positionalArity

/-- The keywords that reach no parameter, in order. -/
def unmatched : List (Name × V) :=
  keywords.filter fun pair ↦ pair.1 ∉ keywordNames function

/-- The slots of a call: those of the parameters, of `*args` and of `**kwargs`. -/
def slots (values : List V) : List (Arg Name V) :=
  values.map .object ++
    (if function.params.varargsName.isSome then [.tuple (surplus function positional)] else []) ++
    (if function.params.varkwName.isSome then [.dict (unmatched function keywords)] else [])

/-- The rules accept the values and keywords and bind the parameters to `values`. -/
structure Binds (values : List V) : Prop where
  distinct : (keywords.map Prod.fst).Nodup
  fits : positional.length ≤ function.params.positionalArity ∨ function.params.varargsName.isSome
  once : ∀ index, positionalValue function positional index = none ∨
    keywordValue function keywords index = none
  matched : unmatched function keywords = [] ∨ function.params.varkwName.isSome
  complete : (List.range function.params.names.length).map
    (parameter function positional keywords) = values.map some
  /-- Every value that the call supplies is used once. -/
  used : ((List.range function.params.names.length).filterMap
    (supplied function positional keywords) ++ surplus function positional ++
      (unmatched function keywords).map Prod.snd).Perm (positional ++ keywords.map Prod.snd)

/-- A call gives positional values, keywords with distinct names, a star sequence and a double-star
mapping. -/
structure Arguments (Name V : Type) where
  positional : List V
  keywords : List (Name × V)
  distinct : (keywords.map Prod.fst).Nodup
  star : Option (StarObject V)
  dstar : Option (MappingObject Name V)

omit [DecidableEq Name] in
/-- All the positional values of a call. -/
def Arguments.positionalValues (call : Arguments Name V) : Option (List V) :=
  match call.star with
  | none => some call.positional
  | some (.tuple values) | some (.list values) => some (call.positional ++ values)
  | some _ => none

omit [DecidableEq Name] in
/-- All the keywords of a call. -/
def Arguments.keywordValues (call : Arguments Name V) : Option (List (Name × V)) :=
  match call.dstar with
  | none => some call.keywords
  | some (.mapping pairs) =>
    (pairs.mapM fun pair : Option Name × V ↦ pair.1.map fun name ↦ (name, pair.2)).map
      (call.keywords ++ ·)
  | some _ => none

/-- The rules accept the call and bind it to the slots. -/
def Accepts (call : Arguments Name V) (bound : List (Arg Name V)) : Prop :=
  ∃ positional keywords values, call.positionalValues = some positional ∧
    call.keywordValues = some keywords ∧ Binds function positional keywords values ∧
      bound = slots function positional keywords values

end Pon.Call.Python
