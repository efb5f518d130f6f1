import Pon.Class.Mro

/-!
# Attributes and their caches

Attribute loads, stores and deletes, and the feedback cells that remember how a name was found. A cell
is guarded by the class of the receiver and the version tag of that class, and a change of a class
gives new tags to the class and to all classes that are registered below it. What a descriptor or a
hook does when it is called is left to the caller. Version tags are unbounded.
-/

namespace Pon.Attr

abbrev TypeId := ℕ
abbrev Name := String

instance : LawfulBEq (TypeId × TypeId) := inferInstance

/-- The bindings of a class or of an instance. -/
abbrev Namespace (Obj : Type) := Name → Option Obj

/-- A pointer to a type object or to another object. -/
inductive Obj where
  | type (id : TypeId)
  | plain (id : ℕ)
  deriving DecidableEq

structure PyType where
  obType : TypeId
  name : String
  /-- What `mro_entries` gives for the type. -/
  mro : List TypeId
  tpDict : Option (Namespace Obj)
  /-- The type is registered as one that owns a namespace. -/
  namespaced : Bool
  versionTag : ℕ
  tpDescrGet : Bool
  tpDescrSet : Bool
  heapInstancePrefix : Bool
  tpBasicsize : ℕ
  tpItemsize : ℕ
  tpDictoffset : ℕ
  /-- Names that the runtime serves for the type without a binding. -/
  syntheticAttrs : List Name

structure Instance where
  obType : TypeId
  dict : Option (Namespace Obj)
  slots : List (Name × Option Obj)

inductive AttrCacheKind where
  | slot | dictOffset | descriptor
  deriving DecidableEq

def attrDescrBlind : ℕ := 0
def attrDescrProbeDict : ℕ := 1

/-- An attribute record. The descriptor is a null pointer for instance attributes. -/
structure AttrIC where
  typeVersion : ℕ
  kind : AttrCacheKind
  offset : ℕ
  descriptor : Option Obj
  deriving DecidableEq

/-- What a feedback cell holds: a guarded type and a record. -/
abbrev FeedbackCell := Option (TypeId × AttrIC)

def versionTagInvalid : ℕ := 0
def versionTagSeed : ℕ := 1
def icWriting : ℕ := 4294967295

namespace FeedbackCell

def attrHit (cell : FeedbackCell) (typeIdentity : TypeId) (liveTypeVersion : ℕ) : Option AttrIC :=
  cell.bind fun record ↦
    if record.1 = typeIdentity ∧ record.2.typeVersion = liveTypeVersion then some record.2 else none

def recordAttr (cell : FeedbackCell) (typeIdentity : TypeId) (ic : AttrIC) : FeedbackCell :=
  if ic.typeVersion = versionTagInvalid ∨ ic.typeVersion = icWriting then cell
  else some (typeIdentity, ic)

end FeedbackCell

structure World where
  types : TypeId → PyType
  typeCount : ℕ
  instances : ℕ → Instance
  /-- The registry of subclasses, as pairs of an ancestor and a class below it. -/
  subclasses : List (TypeId × TypeId)
  cells : ℕ → FeedbackCell

/-- What an attribute load comes to: a value, an error, or the call that it ends with. `none` among the
arguments of a call is the object `None`. -/
inductive Action where
  | value (object : Obj)
  | slotGet (descriptor : Obj) (object : Option Obj) (owner : TypeId)
  | call (function : Obj) (args : List (Option Obj))
  /-- The hook `__getattr__` is bound and called with the name. -/
  | getattrHook (bound : Action) (name : Name)
  /-- An object that the runtime makes for the attribute. -/
  | synthetic (receiver : Obj) (name : Name)
  | null
  | attributeError (receiver : Obj) (name : Name)
  deriving DecidableEq

/-- How an attribute store or delete ends. -/
inductive Status where
  | ok
  | slotSet (descriptor receiver : Obj) (value : Option Obj)
  | call (function : Obj) (args : List Obj)
  | error

namespace World

variable (w : World)

def objectType : Obj → TypeId
  | .type t => (w.types t).obType
  | .plain i => (w.instances i).obType

/-- Whether instances of the type are type objects. -/
def isMetatype (t : TypeId) : Bool :=
  (w.types t).name = "type" || (w.types t).mro.any fun entry ↦ (w.types entry).name = "type"

variable (object : Obj)

def isTypeObject : Bool := w.isMetatype (w.objectType object)

/-- The binding of a name in the namespace of a type itself. -/
def ownAttr (t : TypeId) (name : Name) : Option Obj :=
  if (w.types t).namespaced then (w.types t).tpDict.bind (· name) else none

def lookupInType (t : TypeId) (name : Name) : Option Obj :=
  if (w.types t).namespaced then (w.types t).mro.findSome? fun cls ↦ w.ownAttr cls name else none

def isDataDescriptor (descr : Obj) : Bool :=
  (w.types (w.objectType descr)).tpDescrSet ||
    (w.lookupInType (w.objectType descr) "__set__").isSome ||
    (w.lookupInType (w.objectType descr) "__delete__").isSome

def descriptorGet (descr : Obj) (object : Option Obj) (owner : TypeId) : Action :=
  if (w.types (w.objectType descr)).tpDescrGet then .slotGet descr object owner
  else
    match w.lookupInType (w.objectType descr) "__get__" with
    | none => .value descr
    | some get => .call get [some descr, object, some (.type owner)]

def instanceDict : Obj → Option (Namespace Obj)
  | .type t => (w.types t).tpDict
  | .plain i =>
    let ty := w.types (w.instances i).obType
    if !ty.heapInstancePrefix || ty.tpDictoffset = 0 then none else (w.instances i).dict

variable (name : Name)

def instanceDictValue : Option Obj :=
  (w.instanceDict object).bind (· name)

/-- A name that is bound in the namespace of the class itself, or the default. -/
def ownOr (t : TypeId) (name : Name) (default : Action) : Action :=
  ((w.types t).tpDict.bind (· name)).elim default .value

/-- The load of an attribute of a type object. -/
def getTypeAttr (t : TypeId) (name : Name) : Action :=
  if name = "__name__" ∨ name = "__qualname__" ∨ name = "__module__" then
    w.ownOr t name (.synthetic object name)
  else if name ∈ ["__dict__", "__mro__", "__bases__", "__base__", "__flags__", "__subclasses__"] then
    .synthetic object name
  else if name ∈ (w.types t).syntheticAttrs then .synthetic object name
  else if name = "__annotate__" ∨ name = "__doc__" ∨ name = "__annotations__" then
    w.ownOr t name (.synthetic object name)
  else
    let obTy := w.objectType object
    let metaDescr := w.lookupInType obTy name
    let classDescr := w.lookupInType t name
    match metaDescr.filter w.isDataDescriptor with
    | some descr => w.descriptorGet descr (some object) obTy
    | none =>
      match classDescr.filter w.isDataDescriptor with
      | some descr => w.descriptorGet descr none t
      | none =>
        if name = "__class__" then .value (.type obTy)
        else
          match classDescr, metaDescr with
          | some descr, _ => w.descriptorGet descr none t
          | none, some descr => w.descriptorGet descr (some object) obTy
          | none, none => .synthetic object name

/-- What the load of an instance attribute does when neither class nor instance binds the name. -/
def missingAttr : Action :=
  let obTy := w.objectType object
  match w.lookupInType obTy "__getattr__" with
  | some hook => .getattrHook (w.descriptorGet hook (some object) obTy) name
  | none =>
    if name = "__doc__" then w.getTypeAttr (.type obTy) obTy name
    else if name = "__type_params__" ∧ (w.types obTy).name = "function" then .synthetic object name
    else .attributeError object name

/-- The full lookup on an object that is no type object, and the cell after it. -/
def getInstanceAttr (cell : FeedbackCell) : Action × FeedbackCell :=
  let obTy := w.objectType object
  let version := (w.types obTy).versionTag
  let recorded (kind : AttrCacheKind) (offset : ℕ) (descriptor : Option Obj) : FeedbackCell :=
    cell.recordAttr obTy { typeVersion := version, kind, offset, descriptor }
  let classDescr := w.lookupInType obTy name
  match classDescr.filter w.isDataDescriptor with
  | some descr =>
    (w.descriptorGet descr (some object) obTy, recorded .descriptor attrDescrBlind (some descr))
  | none =>
    if name = "__class__" then (.value (.type obTy), cell)
    else if name = "__dict__" then
      (if (w.types obTy).heapInstancePrefix then .synthetic object name
        else .attributeError object name, cell)
    else
      match w.instanceDictValue object name with
      | some value => (.value value, recorded .dictOffset 0 none)
      | none =>
        match classDescr with
        | some descr => (w.descriptorGet descr (some object) obTy,
            recorded .descriptor attrDescrProbeDict (some descr))
        | none => (w.missingAttr object name, cell)

/-- The load without a consultation of the cell, and the cell after it. -/
def getAttrUncached (cell : FeedbackCell) : Action × FeedbackCell :=
  if w.isTypeObject object then
    match object with
    | .type t => (w.getTypeAttr object t name, cell)
    -- an instance of a class called `type` is read as if it were a type object
    | .plain _ => (.null, cell)
  else w.getInstanceAttr object name cell

/-- What a valid record is replayed as; nothing if the full lookup has to be made. -/
def replay (ic : AttrIC) : Option Action :=
  let obTy := w.objectType object
  let replayed := ic.descriptor.elim .null fun descr ↦ w.descriptorGet descr (some object) obTy
  match ic.kind with
  | .dictOffset => (w.instanceDictValue object name).map .value
  | .descriptor =>
    if ic.offset = attrDescrProbeDict then
      some ((w.instanceDictValue object name).elim replayed .value)
    else some replayed
  | .slot => none

/-- `generic_get_attr_cached`. Without a cell nothing is consulted or recorded. -/
def genericGetAttrCached (cell : Option FeedbackCell) : Action × FeedbackCell :=
  let obTy := w.objectType object
  match cell with
  | none => ((w.getAttrUncached object name none).1, none)
  | some cell =>
    match (cell.attrHit obTy (w.types obTy).versionTag).bind (w.replay object name) with
    | some action => (action, cell)
    | none => w.getAttrUncached object name cell

end World

/-- The classes that are registered under a type, in the order of their registration. -/
def childrenOf (subclasses : List (TypeId × TypeId)) (address : TypeId) : List TypeId :=
  subclasses.filterMap fun edge ↦ if edge.1 = address then some edge.2 else none

/-- The registry entries of types that have not been seen. -/
def unseenEdges (subclasses : List (TypeId × TypeId)) (seen : List TypeId) : ℕ :=
  subclasses.countP fun edge ↦ edge.1 ∉ seen

theorem unseenEdges_cons_le (subclasses : List (TypeId × TypeId)) (seen : List TypeId)
    (address : TypeId) : unseenEdges subclasses (address :: seen) ≤ unseenEdges subclasses seen := by
  refine List.countP_mono_left fun edge _ unseen ↦ ?_
  simp only [List.mem_cons, not_or, decide_eq_true_eq] at unseen ⊢
  exact unseen.2

/-- A new type with children takes entries away from those that are left. -/
theorem unseenEdges_cons_lt {subclasses : List (TypeId × TypeId)} {seen : List TypeId}
    {address : TypeId} (new : address ∉ seen) (parent : childrenOf subclasses address ≠ []) :
    unseenEdges subclasses (address :: seen) < unseenEdges subclasses seen := by
  induction subclasses with
  | nil => exact absurd rfl parent
  | cons edge rest ih =>
    have le := unseenEdges_cons_le rest seen address
    unfold unseenEdges at le ih ⊢
    rw [List.countP_cons, List.countP_cons]
    by_cases here : edge.1 = address
    · have drops : decide (edge.1 ∉ address :: seen) = false := by simp [here]
      have counts : decide (edge.1 ∉ seen) = true := by simpa [here] using new
      rw [drops, counts, if_neg Bool.false_ne_true, if_pos rfl]
      omega
    · have same : decide (edge.1 ∉ address :: seen) = decide (edge.1 ∉ seen) := by simp [here]
      have lt := ih (by simpa [childrenOf, here] using parent)
      rw [same]
      omega

/-- The loop of `type_modified`: a stack of types to visit, and those that have been seen. -/
def collectSubclasses (subclasses : List (TypeId × TypeId)) (pending seen : List TypeId) :
    List TypeId :=
  match pending with
  | [] => seen
  | address :: rest =>
    if address ∈ seen then collectSubclasses subclasses rest seen
    else
      collectSubclasses subclasses ((childrenOf subclasses address).reverse ++ rest) (address :: seen)
termination_by (unseenEdges subclasses seen, pending.length)
decreasing_by
  · exact Prod.Lex.right _ (by simp)
  · next new =>
    by_cases childless : childrenOf subclasses address = []
    · rcases Nat.lt_or_eq_of_le (unseenEdges_cons_le subclasses seen address) with lt | same
      · exact Prod.Lex.left _ _ lt
      · rw [same, childless]
        exact Prod.Lex.right _ (by simp)
    · exact Prod.Lex.left _ _ (unseenEdges_cons_lt new childless)

namespace World

variable (w : World) (t : TypeId)

def modify (change : PyType → PyType) : World :=
  { w with types := Function.update w.types t (change (w.types t)) }

def bumpVersion : World :=
  w.modify t fun ty ↦ { ty with versionTag := ty.versionTag + 1 }

/-- New version tags for a type and for all types that are registered below it. -/
def typeModified : World :=
  (collectSubclasses w.subclasses [t] []).foldl bumpVersion w

def registerSubclass (base derived : TypeId) : World :=
  if base = derived ∨ (base, derived) ∈ w.subclasses then w
  else { w with subclasses := w.subclasses ++ [(base, derived)] }

/-- Only the deletion of a dunder clears the native slot. -/
def updateSlotFromDunder (name : Name) (value : Option Obj) (ty : PyType) : PyType :=
  if value = none ∧ name = "__get__" then { ty with tpDescrGet := false }
  else if value = none ∧ name = "__set__" then { ty with tpDescrSet := false }
  else ty

def setBinding (dict : Namespace Obj) (name : Name) (value : Option Obj) : Namespace Obj :=
  Function.update dict name value

/-- A store or delete in the namespace of a type. -/
def setOwnAttr (dict : Namespace Obj) (name : Name) (value : Option Obj) : World :=
  (w.modify t fun ty ↦
    updateSlotFromDunder name value { ty with tpDict := some (setBinding dict name value) }).typeModified t

def setInstance (i : ℕ) (change : Instance → Instance) : World :=
  { w with instances := Function.update w.instances i (change (w.instances i)) }

/-- The replacement of an instance dictionary. The entries of the new one are `none` if it is no
dictionary; a deletion leaves an empty one. -/
def setInstanceDict (object : Obj) (value : Option Obj) (entries : Option (Namespace Obj)) :
    Status × World :=
  match object, w.instanceDict object with
  | .plain i, some _ =>
    match if value.isNone then some (fun _ ↦ none) else entries with
    | some dict => (.ok, w.setInstance i fun instance_ ↦ { instance_ with dict := some dict })
    | none => (.error, w)
  | _, _ => (.error, w)

def heapTypeLayoutCompatible (heapBasicsize : ℕ) (current replacement : PyType) : Bool :=
  current.tpBasicsize = heapBasicsize && replacement.tpBasicsize = heapBasicsize &&
    current.tpItemsize = replacement.tpItemsize && current.tpDictoffset = replacement.tpDictoffset

/-- The size of `PyHeapInstance`. -/
def heapBasicsize : ℕ := 64

def setInstanceClass (object : Obj) (value : Option Obj) : Status × World :=
  match object, value with
  | .plain i, some (.type replacement) =>
    if w.isTypeObject (.type replacement) &&
        heapTypeLayoutCompatible heapBasicsize (w.types (w.objectType object)) (w.types replacement) then
      (.ok, w.setInstance i fun instance_ ↦ { instance_ with obType := replacement })
    else (.error, w)
  | _, _ => (.error, w)

/-- `descriptor_set`, which deletes if there is no value. -/
def descriptorSet (descr receiver : Obj) (value : Option Obj) : Status :=
  if (w.types (w.objectType descr)).tpDescrSet then .slotSet descr receiver value
  else
    match w.lookupInType (w.objectType descr) (if value.isNone then "__delete__" else "__set__") with
    | some method => .call method ([descr, receiver] ++ value.toList)
    | none => .error

/-- `generic_set_attr`, which deletes if there is no value. `entries` are those of the value, if it is
a dictionary. -/
def genericSetAttr (object : Obj) (name : Name) (value : Option Obj)
    (entries : Option (Namespace Obj)) : Status × World :=
  let isType := w.isTypeObject object
  if !isType && name = "__dict__" then w.setInstanceDict object value entries
  else if !isType && name = "__class__" then w.setInstanceClass object value
  else
    match (w.lookupInType (w.objectType object) name).filter w.isDataDescriptor with
    | some descr => (w.descriptorSet descr object value, w)
    | none =>
      match object, w.instanceDict object with
      | .type t, some dict =>
        if !isType then (.error, w)
        else if value.isNone && (dict name).isNone then (.error, w)
        else (.ok, w.setOwnAttr t dict name value)
      | .plain i, dict? =>
        let instance_ := w.instances i
        if isType then (.error, w)
        else if (w.types instance_.obType).heapInstancePrefix &&
            instance_.slots.any fun slot ↦ slot.1 = name then
          (.ok, w.setInstance i fun instance_ ↦ { instance_ with
            slots := instance_.slots.map fun slot ↦ if slot.1 = name then (name, value) else slot })
        else
          match dict? with
          | none => (.error, w)
          | some dict =>
            if value.isNone && (dict name).isNone then (.error, w)
            else (.ok, w.setInstance i fun instance_ ↦
              { instance_ with dict := some (setBinding dict name value) })
      | _, none => (.error, w)

/-- What the computation of a linearization reads of a type. -/
def linearized : Class.PyType TypeId := .mk t (w.types t).name (some (w.types t).mro) none

/-- The arguments of `construct_class` that shape the type. The namespace contains the descriptors of
the slots. -/
structure ClassSpec where
  metaclass : TypeId
  name : String
  bases : List TypeId
  dict : Namespace Obj
  tpBasicsize : ℕ
  tpDictoffset : ℕ
  heapInstancePrefix : Bool

def ClassSpec.pyType (spec : ClassSpec) (mro : List TypeId) : PyType where
  obType := spec.metaclass
  name := spec.name
  mro := mro
  tpDict := some spec.dict
  namespaced := true
  versionTag := versionTagSeed
  tpDescrGet := false
  tpDescrSet := false
  heapInstancePrefix := spec.heapInstancePrefix
  tpBasicsize := spec.tpBasicsize
  tpItemsize := 0
  tpDictoffset := spec.tpDictoffset
  syntheticAttrs := []

/-- Register a type under every type of its linearization. -/
def registerAncestors (mro : List TypeId) : World :=
  mro.foldl (fun w ancestor ↦ w.registerSubclass ancestor t) w

/-- A class without bases gets `object` as its base, if there is one yet. -/
def baseTypes (objectType : Option TypeId) (spec : ClassSpec) : List TypeId :=
  if spec.bases = [] then
    (objectType.filter fun object ↦ w.isTypeObject (.type object) && object ≠ spec.metaclass).toList
  else spec.bases

/-- The class is not created if its bases have no consistent linearization. -/
def constructClass (objectType : Option TypeId) (spec : ClassSpec) : World :=
  let t := w.typeCount
  let bases := (w.baseTypes objectType spec).map fun base ↦ some (w.linearized base)
  match Class.computeC3Mro objectType (some t) bases with
  | .error _ => w
  | .ok mro =>
    let created : World :=
      { w with types := Function.update w.types t (spec.pyType mro), typeCount := t + 1 }
    created.registerAncestors t mro

/-- What happens in a run. Native code stores in the namespace of a type when it computes annotations,
and fills the namespaces of builtin types; the setter of a metaclass may change a type. -/
inductive Event where
  | constructClass (objectType : Option TypeId) (spec : ClassSpec)
  | newInstance (id : ℕ) (instance_ : Instance)
  | loadAttr (cell : ℕ) (object : Obj)
  | setAttr (object : Obj) (name : Name) (value : Option Obj) (entries : Option (Namespace Obj))
  | typeSetterReturned (t : TypeId)
  | storeOwnAttr (t : TypeId) (name : Name) (value : Option Obj)
  | installSurface (t : TypeId) (dict : Namespace Obj)

/-- Cells are numbered, and each is used for one name. -/
def step (nameOf : ℕ → Name) : Event → World
  | .constructClass objectType spec => w.constructClass objectType spec
  | .newInstance id instance_ => w.setInstance id fun _ ↦ instance_
  | .loadAttr cell object =>
    let next := (w.genericGetAttrCached object (nameOf cell) (some (w.cells cell))).2
    { w with cells := Function.update w.cells cell next }
  | .setAttr object name value entries => (w.genericSetAttr object name value entries).2
  | .typeSetterReturned t => w.typeModified t
  | .storeOwnAttr t name value =>
    w.setOwnAttr t ((w.types t).tpDict.getD fun _ ↦ none) name value
  | .installSurface t dict =>
    (w.modify t fun ty ↦ { ty with tpDict := some dict, namespaced := true }).typeModified t

end World

end Pon.Attr
