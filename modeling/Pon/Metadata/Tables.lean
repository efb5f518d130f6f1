import Mathlib.Data.List.Basic

/-!
# Side tables of functions

The metadata of a function object that its layout has no room for is kept in six global tables, keyed by
the address of the function. The collector traces and finalizes a function with the help of the tables.

Objects are given by their addresses, and zero is the NULL pointer.
-/

namespace Pon.Metadata

/-! ## Entries -/

/-- A value with the number of the allocation that it was stored for. No operation reads the number. -/
structure Stamped (α : Type) where
  value : α
  stamp : ℕ

structure ParamSpec where
  names : Option (List ℕ)
  positionalOnlyCount : ℕ
  positionalCount : ℕ
  keywordOnlyCount : ℕ
  varargsName : ℕ
  varkwName : ℕ

structure OwnedParamSpec where
  names : List ℕ
  positionalOnlyCount : ℕ
  positionalCount : ℕ
  keywordOnlyCount : ℕ
  varargsName : Option ℕ
  varkwName : Option ℕ

structure CodeInfo where
  entry : ℕ
  nameInterned : ℕ
  nLocals : ℕ
  flags : ℕ
  params : Option ParamSpec

structure FunctionRecord where
  entry : ℕ
  nameInterned : ℕ
  nLocals : ℕ
  flags : ℕ
  params : Option OwnedParamSpec
  defaults : List ℕ
  kwdefaults : List (ℕ × ℕ)
  closure : List ℕ

structure DefaultsOverride where
  defaults : Option (Stamped ℕ) := none
  kwdefaults : Option (Stamped ℕ) := none

structure FunctionModuleRecord where
  name : ℕ
  moduleObject : ℕ

structure SideTables where
  functionRecords : ℕ → Option (Stamped FunctionRecord)
  functionDefaultOverrides : ℕ → Option DefaultsOverride
  annotateFunctions : ℕ → Option (Stamped ℕ)
  functionModules : ℕ → Option (Stamped FunctionModuleRecord)
  nativeFunctions : ℕ → Option (Stamped Unit)
  nativeMethodDescriptors : ℕ → Option (Stamped Unit)

def SideTables.empty : SideTables where
  functionRecords _ := none
  functionDefaultOverrides _ := none
  annotateFunctions _ := none
  functionModules _ := none
  nativeFunctions _ := none
  nativeMethodDescriptors _ := none

/-! ## Registration -/

def copyParamSpec (params : Option ParamSpec) : Except String (Option OwnedParamSpec) :=
  match params with
  | none => .ok none
  | some spec =>
    let namedCount := spec.positionalOnlyCount + spec.positionalCount + spec.keywordOnlyCount
    if spec.names = none ∧ namedCount ≠ 0 then .error "ParamSpec names pointer is null"
    else
      .ok (some
        { names := if namedCount = 0 then [] else (spec.names.getD []).take namedCount
          positionalOnlyCount := spec.positionalOnlyCount
          positionalCount := spec.positionalCount
          keywordOnlyCount := spec.keywordOnlyCount
          varargsName := if spec.varargsName ≠ 0 then some spec.varargsName else none
          varkwName := if spec.varkwName ≠ 0 then some spec.varkwName else none })

/-- The keyword-only defaults, added to those before them. -/
def insertKwdefaults (kwdefaults : List (ℕ × ℕ)) : List (ℕ × ℕ) → Except String (List (ℕ × ℕ))
  | [] => .ok kwdefaults
  | (name, value) :: rest =>
    if value = 0 then
      .error ("keyword-only default for interned name " ++ toString name ++ " is NULL")
    else if name ∈ kwdefaults.map Prod.fst then
      .error ("duplicate keyword-only default for interned name " ++ toString name)
    else insertKwdefaults (kwdefaults ++ [(name, value)]) rest

/-- What the tables read of objects. -/
structure Objects where
  none : ℕ
  hasTupleStorage : ℕ → Bool
  hasDictStorage : ℕ → Bool
  isFunctionObject : ℕ → Bool

namespace SideTables

variable (tables : SideTables) (stamp function : ℕ)

def registerFunctionRecord (code : CodeInfo) (defaults kwdefaultNames kwdefaultValues closure : List ℕ) :
    Except String SideTables :=
  if function = 0 then .error "cannot register metadata for NULL function"
  else if code.entry = 0 then .error "function code pointer is null"
  else if kwdefaultNames.length ≠ kwdefaultValues.length then
    .error ("kwdefault name/value length mismatch: " ++ toString kwdefaultNames.length ++ " names for " ++
      toString kwdefaultValues.length ++ " values")
  else do
    let params ← copyParamSpec code.params
    let kwdefaults ← insertKwdefaults [] (kwdefaultNames.zip kwdefaultValues)
    let record : FunctionRecord :=
      { entry := code.entry, nameInterned := code.nameInterned, nLocals := code.nLocals,
        flags := code.flags, params, defaults, kwdefaults, closure }
    .ok { tables with
          functionRecords := Function.update tables.functionRecords function (some ⟨record, stamp⟩) }

/-- The record stays that of the allocation it was stored for. -/
def setFunctionClosure (closure : List ℕ) : Except String SideTables :=
  if function = 0 then .error "cannot set closure for NULL function"
  else
    match tables.functionRecords function with
    | none => .error "function has no Phase-B metadata record"
    | some record =>
      .ok { tables with
            functionRecords := Function.update tables.functionRecords function
              (some { record with value := { record.value with closure } }) }

def defaultsOverride : DefaultsOverride := (tables.functionDefaultOverrides function).getD {}

def storeDefaultsOverride (objects : Objects) (value : ℕ) : Except String SideTables :=
  let store (stored : ℕ) : SideTables :=
    { tables with
      functionDefaultOverrides := Function.update tables.functionDefaultOverrides function
        (some { tables.defaultsOverride function with defaults := some ⟨stored, stamp⟩ }) }
  if value = 0 ∨ value = objects.none then .ok (store objects.none)
  else if objects.hasTupleStorage value then .ok (store value)
  else .error "__defaults__ must be set to a tuple object"

def storeKwdefaultsOverride (objects : Objects) (value : ℕ) : Except String SideTables :=
  let store (stored : ℕ) : SideTables :=
    { tables with
      functionDefaultOverrides := Function.update tables.functionDefaultOverrides function
        (some { tables.defaultsOverride function with kwdefaults := some ⟨stored, stamp⟩ }) }
  if value = 0 ∨ value = objects.none then .ok (store objects.none)
  else if objects.hasDictStorage value then .ok (store value)
  else .error "__kwdefaults__ must be set to a dict object"

def setFunctionAnnotate (annotate : ℕ) : Except String SideTables :=
  if function = 0 then .error "cannot set __annotate__ on NULL function"
  else if annotate = 0 then .error "cannot set NULL __annotate__ function"
  else
    .ok { tables with
          annotateFunctions := Function.update tables.annotateFunctions function
            (some ⟨annotate, stamp⟩) }

def setFunctionModuleContext (name moduleObject : ℕ) : SideTables :=
  if function = 0 then tables
  else
    { tables with
      functionModules := Function.update tables.functionModules function
        (some ⟨⟨name, moduleObject⟩, stamp⟩) }

def markNativeFunction (objects : Objects) : SideTables :=
  if objects.isFunctionObject function then
    { tables with nativeFunctions := Function.update tables.nativeFunctions function (some ⟨(), stamp⟩) }
  else tables

def markNativeMethodDescriptor (objects : Objects) : SideTables :=
  if objects.isFunctionObject function then
    { tables with
      nativeMethodDescriptors := Function.update tables.nativeMethodDescriptors function
        (some ⟨(), stamp⟩) }
  else tables

/-! ## Collection -/

def unregisterFunctionRecord : SideTables :=
  { tables with
    functionRecords := Function.update tables.functionRecords function none
    functionDefaultOverrides := Function.update tables.functionDefaultOverrides function none }

def clearFunctionModule : SideTables :=
  { tables with functionModules := Function.update tables.functionModules function none }

def clearNativeFunction : SideTables :=
  { tables with
    nativeFunctions := Function.update tables.nativeFunctions function none
    nativeMethodDescriptors := Function.update tables.nativeMethodDescriptors function none }

/-- What finalizing a function leaves of the tables. -/
def finalizeFunction : SideTables :=
  ((tables.unregisterFunctionRecord function).clearFunctionModule function).clearNativeFunction function

def functionModuleObject : Option ℕ :=
  match tables.functionModules function with
  | none => none
  | some record => if record.value.moduleObject = 0 then none else some record.value.moduleObject

/-- The objects of a record that are not NULL. -/
def recordRefs : List ℕ :=
  match tables.functionRecords function with
  | none => []
  | some record =>
    (record.value.defaults ++ record.value.kwdefaults.map Prod.snd ++ record.value.closure).filter (· ≠ 0)

def overrideRefs : List ℕ :=
  ((tables.defaultsOverride function).defaults.toList ++
    (tables.defaultsOverride function).kwdefaults.toList).map Stamped.value

/-- The values of the module are given by `module_object_attr_values`. -/
def visitFunctionGcRefs (moduleAttrs : ℕ → Option (List ℕ)) : List ℕ :=
  tables.recordRefs function ++ tables.overrideRefs function ++
    ((tables.functionModuleObject function).bind moduleAttrs).getD []

/-- The heap objects that the tables hold for a function. A module object is no heap object: it is boxed
for the life of the process. -/
def heldObjects : List ℕ :=
  tables.recordRefs function ++ tables.overrideRefs function ++
    ((tables.annotateFunctions function).map Stamped.value).toList

/-! ## Owners -/

/-- Every entry of the function was stored for the allocation with the number. -/
structure OwnedBy : Prop where
  record : ∀ entry, tables.functionRecords function = some entry → entry.stamp = stamp
  defaults : ∀ entry, (tables.defaultsOverride function).defaults = some entry → entry.stamp = stamp
  kwdefaults : ∀ entry, (tables.defaultsOverride function).kwdefaults = some entry → entry.stamp = stamp
  annotate : ∀ entry, tables.annotateFunctions function = some entry → entry.stamp = stamp
  context : ∀ entry, tables.functionModules function = some entry → entry.stamp = stamp
  native : ∀ entry, tables.nativeFunctions function = some entry → entry.stamp = stamp
  descriptor : ∀ entry, tables.nativeMethodDescriptors function = some entry → entry.stamp = stamp

/-- The tables have no entry for the function. -/
structure Clear : Prop where
  record : tables.functionRecords function = none
  override : tables.functionDefaultOverrides function = none
  annotate : tables.annotateFunctions function = none
  context : tables.functionModules function = none
  native : tables.nativeFunctions function = none
  descriptor : tables.nativeMethodDescriptors function = none

/-- The tables have the same entries for the function. -/
structure SameAt (tables tables' : SideTables) (function : ℕ) : Prop where
  record : tables'.functionRecords function = tables.functionRecords function
  override : tables'.functionDefaultOverrides function = tables.functionDefaultOverrides function
  annotate : tables'.annotateFunctions function = tables.annotateFunctions function
  context : tables'.functionModules function = tables.functionModules function
  native : tables'.nativeFunctions function = tables.nativeFunctions function
  descriptor : tables'.nativeMethodDescriptors function = tables.nativeMethodDescriptors function

variable {tables stamp function}

theorem clear_empty : empty.Clear function := ⟨rfl, rfl, rfl, rfl, rfl, rfl⟩

theorem SameAt.refl : SameAt tables tables function := ⟨rfl, rfl, rfl, rfl, rfl, rfl⟩

variable {tables' : SideTables}

theorem SameAt.clear (same : SameAt tables tables' function)
    (clear : tables.Clear function) : tables'.Clear function where
  record := same.record.trans clear.record
  override := same.override.trans clear.override
  annotate := same.annotate.trans clear.annotate
  context := same.context.trans clear.context
  native := same.native.trans clear.native
  descriptor := same.descriptor.trans clear.descriptor

theorem SameAt.ownedBy (same : SameAt tables tables' function)
    (owned : tables.OwnedBy stamp function) : tables'.OwnedBy stamp function := by
  have override : tables'.defaultsOverride function = tables.defaultsOverride function := by
    unfold defaultsOverride
    rw [same.override]
  obtain ⟨record, defaults, kwdefaults, annotate, context, native, descriptor⟩ := owned
  constructor
  · rwa [same.record]
  · rwa [override]
  · rwa [override]
  · rwa [same.annotate]
  · rwa [same.context]
  · rwa [same.native]
  · rwa [same.descriptor]

theorem Clear.ownedBy (clear : tables.Clear function) (stamp : ℕ) : tables.OwnedBy stamp function := by
  have override : tables.defaultsOverride function = {} := by
    unfold defaultsOverride
    rw [clear.override]
    rfl
  constructor
  · rw [clear.record]
    exact nofun
  · rw [override]
    exact nofun
  · rw [override]
    exact nofun
  · rw [clear.annotate]
    exact nofun
  · rw [clear.context]
    exact nofun
  · rw [clear.native]
    exact nofun
  · rw [clear.descriptor]
    exact nofun

theorem clear_finalizeFunction (unannotated : tables.annotateFunctions function = none) :
    (tables.finalizeFunction function).Clear function :=
  ⟨Function.update_self _ _ _, Function.update_self _ _ _, unannotated, Function.update_self _ _ _,
    Function.update_self _ _ _, Function.update_self _ _ _⟩

theorem sameAt_finalizeFunction {other : ℕ} (apart : other ≠ function) :
    SameAt tables (tables.finalizeFunction function) other :=
  ⟨Function.update_of_ne apart _ _, Function.update_of_ne apart _ _, rfl, Function.update_of_ne apart _ _,
    Function.update_of_ne apart _ _, Function.update_of_ne apart _ _⟩

end SideTables

/-! ## Registrations -/

/-- What is registered for a function. -/
inductive Registration
  | functionRecord (code : CodeInfo) (defaults kwdefaultNames kwdefaultValues closure : List ℕ)
  | functionClosure (closure : List ℕ)
  | defaultsOverride (value : ℕ)
  | kwdefaultsOverride (value : ℕ)
  | functionAnnotate (annotate : ℕ)
  | functionModuleContext (name moduleObject : ℕ)
  | nativeFunction
  | nativeMethodDescriptor

/-- The tables after a registration. An error leaves them as they are. -/
def SideTables.register (tables : SideTables) (objects : Objects) (stamp function : ℕ) :
    Registration → SideTables
  | .functionRecord code defaults kwdefaultNames kwdefaultValues closure =>
    (tables.registerFunctionRecord stamp function code defaults kwdefaultNames kwdefaultValues
      closure).toOption.getD tables
  | .functionClosure closure => (tables.setFunctionClosure function closure).toOption.getD tables
  | .defaultsOverride value =>
    (tables.storeDefaultsOverride stamp function objects value).toOption.getD tables
  | .kwdefaultsOverride value =>
    (tables.storeKwdefaultsOverride stamp function objects value).toOption.getD tables
  | .functionAnnotate annotate =>
    (tables.setFunctionAnnotate stamp function annotate).toOption.getD tables
  | .functionModuleContext name moduleObject =>
    tables.setFunctionModuleContext stamp function name moduleObject
  | .nativeFunction => tables.markNativeFunction stamp function objects
  | .nativeMethodDescriptor => tables.markNativeMethodDescriptor stamp function objects

namespace SideTables

variable {tables : SideTables} {objects : Objects} {stamp function : ℕ} {registration : Registration}

/-- What a registration can do: nothing, or one table gets an entry for the function. -/
inductive Registered (tables : SideTables) (stamp function : ℕ) (registration : Registration) :
    SideTables → Prop
  | unchanged : Registered tables stamp function registration tables
  | record (entry : Stamped FunctionRecord)
      (owner : entry.stamp = stamp ∨
        ∃ old, tables.functionRecords function = some old ∧ entry.stamp = old.stamp) :
      Registered tables stamp function registration
        { tables with functionRecords := Function.update tables.functionRecords function (some entry) }
  | override (entry : DefaultsOverride)
      (defaults : ∀ value, entry.defaults = some value →
        value.stamp = stamp ∨ (tables.defaultsOverride function).defaults = some value)
      (kwdefaults : ∀ value, entry.kwdefaults = some value →
        value.stamp = stamp ∨ (tables.defaultsOverride function).kwdefaults = some value) :
      Registered tables stamp function registration
        { tables with
          functionDefaultOverrides :=
            Function.update tables.functionDefaultOverrides function (some entry) }
  | annotate (value : ℕ) (isAnnotate : registration = .functionAnnotate value) :
      Registered tables stamp function registration
        { tables with
          annotateFunctions :=
            Function.update tables.annotateFunctions function (some ⟨value, stamp⟩) }
  | context (value : FunctionModuleRecord) :
      Registered tables stamp function registration
        { tables with
          functionModules := Function.update tables.functionModules function (some ⟨value, stamp⟩) }
  | native :
      Registered tables stamp function registration
        { tables with
          nativeFunctions := Function.update tables.nativeFunctions function (some ⟨(), stamp⟩) }
  | descriptor :
      Registered tables stamp function registration
        { tables with
          nativeMethodDescriptors :=
            Function.update tables.nativeMethodDescriptors function (some ⟨(), stamp⟩) }

theorem registered_register (tables : SideTables) (objects : Objects) (stamp function : ℕ)
    (registration : Registration) :
    Registered tables stamp function registration
      (tables.register objects stamp function registration) := by
  cases registration with
  | functionRecord code defaults kwdefaultNames kwdefaultValues closure =>
    unfold register registerFunctionRecord
    dsimp only
    split_ifs
    · exact .unchanged
    · exact .unchanged
    · exact .unchanged
    · cases copyParamSpec code.params with
      | error message => exact .unchanged
      | ok params =>
        cases insertKwdefaults [] (kwdefaultNames.zip kwdefaultValues) with
        | error message => exact .unchanged
        | ok kwdefaults => exact .record _ (Or.inl rfl)
  | functionClosure closure =>
    unfold register setFunctionClosure
    dsimp only
    split_ifs
    · exact .unchanged
    · cases found : tables.functionRecords function with
      | none => exact .unchanged
      | some record => exact .record _ (Or.inr ⟨record, found, rfl⟩)
  | defaultsOverride value =>
    unfold register storeDefaultsOverride
    dsimp only
    split_ifs
    iterate 2
      · refine .override _ (fun entry stored ↦ Or.inl ?_) (fun entry kept ↦ Or.inr kept)
        rw [← Option.some.inj stored]
    · exact .unchanged
  | kwdefaultsOverride value =>
    unfold register storeKwdefaultsOverride
    dsimp only
    split_ifs
    iterate 2
      · refine .override _ (fun entry kept ↦ Or.inr kept) (fun entry stored ↦ Or.inl ?_)
        rw [← Option.some.inj stored]
    · exact .unchanged
  | functionAnnotate annotate =>
    unfold register setFunctionAnnotate
    dsimp only
    split_ifs
    · exact .unchanged
    · exact .unchanged
    · exact .annotate annotate rfl
  | functionModuleContext name moduleObject =>
    unfold register setFunctionModuleContext
    dsimp only
    split_ifs
    · exact .unchanged
    · exact .context _
  | nativeFunction =>
    unfold register markNativeFunction
    dsimp only
    split_ifs
    · exact .native
    · exact .unchanged
  | nativeMethodDescriptor =>
    unfold register markNativeMethodDescriptor
    dsimp only
    split_ifs
    · exact .descriptor
    · exact .unchanged

variable {tables' : SideTables} (registered : Registered tables stamp function registration tables')
include registered

theorem Registered.sameAt {other : ℕ} (apart : other ≠ function) : SameAt tables tables' other := by
  cases registered with
  | unchanged => exact .refl
  | record => exact ⟨Function.update_of_ne apart _ _, rfl, rfl, rfl, rfl, rfl⟩
  | override => exact ⟨rfl, Function.update_of_ne apart _ _, rfl, rfl, rfl, rfl⟩
  | annotate => exact ⟨rfl, rfl, Function.update_of_ne apart _ _, rfl, rfl, rfl⟩
  | context => exact ⟨rfl, rfl, rfl, Function.update_of_ne apart _ _, rfl, rfl⟩
  | native => exact ⟨rfl, rfl, rfl, rfl, Function.update_of_ne apart _ _, rfl⟩
  | descriptor => exact ⟨rfl, rfl, rfl, rfl, rfl, Function.update_of_ne apart _ _⟩

/-- A registration keeps the owner of the entries. -/
theorem Registered.ownedBy
    (owned : tables.OwnedBy stamp function) : tables'.OwnedBy stamp function := by
  have updated {α : Type} {table : ℕ → Option α} {entry entry' : α}
      (found : Function.update table function (some entry) function = some entry') : entry = entry' := by
    rw [Function.update_self] at found
    exact Option.some.inj found
  cases registered with
  | unchanged => exact owned
  | record entry owner =>
    refine { owned with record := fun entry' found ↦ ?_ }
    rw [← updated found]
    obtain own | ⟨old, isOld, same⟩ := owner
    · exact own
    · exact same.trans (owned.record old isOld)
  | override entry defaults kwdefaults =>
    have stored : defaultsOverride { tables with
        functionDefaultOverrides :=
          Function.update tables.functionDefaultOverrides function (some entry) } function = entry := by
      unfold defaultsOverride
      dsimp only
      rw [Function.update_self]
      rfl
    refine { owned with defaults := fun value found ↦ ?_, kwdefaults := fun value found ↦ ?_ }
    · rw [stored] at found
      exact (defaults value found).elim id (owned.defaults value)
    · rw [stored] at found
      exact (kwdefaults value found).elim id (owned.kwdefaults value)
  | annotate => exact { owned with annotate := fun entry found ↦ by rw [← updated found] }
  | context => exact { owned with context := fun entry found ↦ by rw [← updated found] }
  | native => exact { owned with native := fun entry found ↦ by rw [← updated found] }
  | descriptor => exact { owned with descriptor := fun entry found ↦ by rw [← updated found] }

theorem Registered.annotateFunctions
    (other : ∀ annotate, registration ≠ .functionAnnotate annotate) :
    tables'.annotateFunctions = tables.annotateFunctions := by
  cases registered with
  | annotate value isAnnotate => exact absurd isAnnotate (other value)
  | unchanged | record | override | context | native | descriptor => rfl

end SideTables

end Pon.Metadata
