import Mathlib.Data.Nat.Init
import Pon.Package.Names

/-!
# Argument binding

A call gives positional values, keywords, a star sequence and a double-star mapping; the binder puts
them into the slots of the parameters and fills the rest from the defaults, which may have been
assigned after the function was created.

Objects are never NULL here, so the checks for NULL pointers are left out. Names are interned, and
`keyword_name` is a parameter.
-/

namespace Pon.Call

open Package

/-- `OwnedParamSpec`; `names` leaves out `*args` and `**kwargs`. -/
structure OwnedParamSpec (Name : Type) where
  names : List Name
  positionalOnlyCount : ℕ
  positionalCount : ℕ
  keywordOnlyCount : ℕ
  varargsName : Option Name
  varkwName : Option Name
  described : positionalOnlyCount + positionalCount + keywordOnlyCount = names.length
  distinct : names.Nodup

namespace OwnedParamSpec

variable {Name : Type} (params : OwnedParamSpec Name)

def positionalArity : ℕ :=
  params.positionalOnlyCount + params.positionalCount

def totalSlots : ℕ :=
  params.names.length + (if params.varargsName.isSome then 1 else 0) +
    (if params.varkwName.isSome then 1 else 0)

def varargsSlot : Option ℕ :=
  params.varargsName.map fun _ ↦ params.names.length

def varkwSlot : Option ℕ :=
  params.varkwName.map fun _ ↦
    params.names.length + (if params.varargsName.isSome then 1 else 0)

end OwnedParamSpec

/-- A key of a `__kwdefaults__` dict: an exact `str`, or another object, which may be equal to the
name of a parameter nevertheless. -/
inductive KwKey (Name : Type)
  | str (name : Name)
  | other (equal : Option Name)
deriving DecidableEq

def KwKey.equal {Name : Type} : KwKey Name → Option Name
  | .str name => some name
  | .other equal => equal

structure KwDict (Name V : Type) where
  entries : List (KwKey Name × V)
  distinct : (entries.filterMap fun entry ↦ entry.1.equal).Nodup

/-- A function with its record. An override is absent until the attribute is assigned; then it holds
`None` or the assigned object. -/
structure Function (Name V : Type) where
  name : Option Text
  params : OwnedParamSpec Name
  defaults : List V
  kwdefaults : Name → Option V
  defaultsOverride : Option (Option (List V))
  kwdefaultsOverride : Option (Option (KwDict Name V))

structure KeywordArgs (Name V : Type) where
  names : List Name
  values : List V

inductive StarObject (V : Type)
  | tuple (values : List V)
  | list (values : List V)
  | other (typeName : Text)
  | invalid

/-- A key of a mapping is `none` if it is not a string. -/
inductive MappingObject (Name V : Type)
  | mapping (pairs : List (Option Name × V))
  | other (typeName : Text)
  /-- Reading its keys or values raises. -/
  | raising

/-- An object in a slot: one that was given, or a tuple or dict that the binder builds. -/
inductive Arg (Name V : Type)
  | object (value : V)
  | tuple (values : List V)
  | dict (pairs : List (Name × V))
deriving DecidableEq

inductive BindError
  | typeError (message : Text)
  | message (message : Text)
deriving DecidableEq

def typeError {α : Type} (parts : List Text) : Except BindError α :=
  .error (.typeError parts.flatten)

section Messages

variable {Name V : Type} (keywordName : Name → Text) (function : Function Name V)

def functionCallName : Text :=
  "__main__.".toList ++ function.name.getD "function".toList ++ "()".toList

def functionShortCallName : Text :=
  function.name.getD "function".toList ++ "()".toList

def formatTooManyPositionalArguments (expected got : ℕ) : Text :=
  functionShortCallName function ++ " takes ".toList ++ Nat.toDigits 10 expected ++
    " positional ".toList ++ (if expected = 1 then "argument" else "arguments").toList ++
    " but ".toList ++ Nat.toDigits 10 got ++ (if got = 1 then " was" else " were").toList ++
    " given".toList

def quotedArgumentNames (names : List Name) : Text :=
  match names.map fun name ↦ "'".toList ++ keywordName name ++ "'".toList with
  | [] => []
  | [only] => only
  | [first, second] => first ++ " and ".toList ++ second
  | quoted =>
    ", ".toList.intercalate quoted.dropLast ++ ", and ".toList ++ quoted.getLast?.getD []

def formatMissingRequiredArguments (names : List Name) (kind : Text) : Text :=
  functionShortCallName function ++ " missing ".toList ++ Nat.toDigits 10 names.length ++
    " required ".toList ++ kind ++ (if names.length = 1 then " argument" else " arguments").toList ++
    ": ".toList ++ quotedArgumentNames keywordName names

end Messages

section Binding

variable {Name V : Type} [DecidableEq Name] (keywordName : Name → Text)
  (function : Function Name V)

def positionalArgsFromStar : StarObject V → Except BindError (List V)
  | .tuple values | .list values => .ok values
  | .other typeName =>
    typeError ["argument after * must be an iterable, not ".toList, typeName]
  | .invalid => .error (.message "argument after * is invalid".toList)

/-- The loop of `extend_keywords_from_mapping`. -/
def extendKeywords : List (Option Name × V) → List Name → List V →
    Except BindError (List Name × List V)
  | [], names, values => .ok (names, values)
  | (none, _) :: _, _, _ => typeError ["keywords must be strings".toList]
  | (some name, value) :: rest, names, values =>
    if name ∈ names then
      typeError [functionCallName function, " got multiple values for keyword argument '".toList,
        keywordName name, "'".toList]
    else extendKeywords rest (names ++ [name]) (values ++ [value])

def extendKeywordsFromMapping (mapping : MappingObject Name V) (names : List Name)
    (values : List V) : Except BindError (List Name × List V) :=
  match mapping with
  | .raising => .error (.message "argument after ** could not be collected".toList)
  | .other typeName =>
    typeError [functionCallName function, " argument after ** must be a mapping, not ".toList, typeName]
  | .mapping pairs => extendKeywords keywordName function pairs names values

def defaultsOverrideValues : Option (List V) :=
  function.defaultsOverride.map fun stored ↦ stored.getD []

/-- The entries of the dict, read into a map. -/
def kwdefaultsMap : List (KwKey Name × V) → (Name → Option V) →
    Except BindError (Name → Option V)
  | [], map => .ok map
  | (.str name, value) :: rest, map => kwdefaultsMap rest (Function.update map name (some value))
  | (.other _, _) :: _, _ => .error (.message "__kwdefaults__ keys must be strings".toList)

def kwdefaultsOverrideMap : Except BindError (Option (Name → Option V)) :=
  match function.kwdefaultsOverride with
  | none => .ok none
  | some none => .ok (some fun _ ↦ none)
  | some (some dict) => (kwdefaultsMap dict.entries fun _ ↦ none).map some

/-- The default that tail alignment gives the positional parameter at `index`. -/
def tailDefault (arity : ℕ) (defaults : List V) (index : ℕ) : Option V :=
  let defaultStart : ℤ := arity - defaults.length
  let defaultIndex : ℤ := index - defaultStart
  if 0 ≤ defaultIndex then defaults[defaultIndex.toNat]? else none

/-- The slots of a call; `none` is NULL. -/
abbrev Slots (Name V : Type) := List (Option (Arg Name V))

variable (bound : Slots Name V)

def Slots.isBound (index : ℕ) : Bool :=
  (bound.getD index none).isSome

def bindPositional (positional : List V) : Slots Name V :=
  (positional.take function.params.positionalArity).zipIdx.foldl
    (fun bound value ↦ bound.set value.2 (some (.object value.1)))
    (List.replicate function.params.totalSlots none)

def setSlot (slot : Option ℕ) (arg : Arg Name V) : Slots Name V :=
  match slot with
  | none => bound
  | some slot => bound.set slot (some arg)

def bindKeywords : List (Name × V) → Slots Name V → List (Name × V) →
    Except BindError (Slots Name V × List (Name × V))
  | [], bound, varkwPairs => .ok (bound, varkwPairs)
  | (name, value) :: rest, bound, varkwPairs =>
    match function.params.names.idxOf? name with
    | none =>
      if function.params.varkwName.isSome then
        bindKeywords rest bound (varkwPairs ++ [(name, value)])
      else
        typeError [functionShortCallName function, " got an unexpected keyword argument '".toList,
          keywordName name, "'".toList]
    | some index =>
      if index < function.params.positionalOnlyCount then
        typeError [functionShortCallName function,
          " got some positional-only arguments passed as keyword arguments: '".toList,
          keywordName name, "'".toList]
      else if bound.isBound index then
        typeError [functionShortCallName function, " got multiple values for argument '".toList,
          keywordName name, "'".toList]
      else bindKeywords rest (bound.set index (some (.object value))) varkwPairs

/-- Give the unbound slots of the indices their defaults, and collect the names of those without. -/
def fillDefaults (default : ℕ → Option V) : List ℕ → Slots Name V → List Name →
    Slots Name V × List Name
  | [], bound, missing => (bound, missing)
  | index :: rest, bound, missing =>
    if bound.isBound index then fillDefaults default rest bound missing
    else
      match default index with
      | some value => fillDefaults default rest (bound.set index (some (.object value))) missing
      | none =>
        fillDefaults default rest bound (missing ++ function.params.names[index]?.toList)

/-- The part of `bind_arguments` on the positional parameters that no value was given for. -/
def fillPositional : Except BindError (Slots Name V) :=
  let arity := function.params.positionalArity
  let defaults := (defaultsOverrideValues function).getD function.defaults
  let filled := fillDefaults function (tailDefault arity defaults) (List.range arity) bound []
  if filled.2 ≠ [] then
    typeError [formatMissingRequiredArguments keywordName function filled.2 "positional".toList]
  else .ok filled.1

/-- The part of `bind_arguments` on the keyword-only parameters that no value was given for. -/
def fillKeywordOnly : Except BindError (Slots Name V) :=
  match kwdefaultsOverrideMap function with
  | .error error => .error error
  | .ok override =>
    let kwdefaults := override.getD function.kwdefaults
    let filled := fillDefaults function (fun index ↦ function.params.names[index]?.bind kwdefaults)
      (List.range' function.params.positionalArity function.params.keywordOnlyCount) bound []
    if filled.2 ≠ [] then
      typeError [formatMissingRequiredArguments keywordName function filled.2 "keyword-only".toList]
    else .ok filled.1

/-- `bind_arguments` after the star sequence and the double-star mapping are collected. -/
def bindCollected (positional : List V) (keywords : List (Name × V)) :
    Except BindError (Slots Name V) :=
  let params := function.params
  let arity := params.positionalArity
  if arity < positional.length ∧ params.varargsName = none then
    typeError [formatTooManyPositionalArguments function arity positional.length]
  else
    let bound := setSlot (bindPositional function positional) params.varargsSlot
      (.tuple (positional.drop arity))
    match bindKeywords keywordName function keywords bound [] with
    | .error error => .error error
    | .ok (bound, varkwPairs) =>
      match fillPositional keywordName function (setSlot bound params.varkwSlot (.dict varkwPairs)) with
      | .error error => .error error
      | .ok bound => fillKeywordOnly keywordName function bound

def bindArguments (positional : List V) (keywords : KeywordArgs Name V)
    (star : Option (StarObject V)) (dstar : Option (MappingObject Name V)) :
    Except BindError (Slots Name V) :=
  if keywords.names.length ≠ keywords.values.length then
    .error (.message ("keyword name/value length mismatch: ".toList ++
      Nat.toDigits 10 keywords.names.length ++ " names for ".toList ++
      Nat.toDigits 10 keywords.values.length ++ " values".toList))
  else
    match star.elim (.ok []) positionalArgsFromStar with
    | .error error => .error error
    | .ok rest =>
      match dstar.elim (.ok (keywords.names, keywords.values)) fun mapping ↦
        extendKeywordsFromMapping keywordName function mapping keywords.names keywords.values with
      | .error error => .error error
      | .ok (names, values) =>
        bindCollected keywordName function (positional ++ rest) (names.zip values)

end Binding

end Pon.Call
