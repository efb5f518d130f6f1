import Pon.Class.Invalidation

/-!
# Transparent attribute caches

A record of a feedback cell stays right as long as the version tag of its class does not change: every
change that can reach a lookup gives the class a new tag. What the records do not guard is whether a
binding of a class is a data descriptor, which its own class decides.
-/

namespace Pon.Attr

namespace World

variable {w : World}

theorem foldl_bumpVersion (types : List TypeId) (w : World) :
    types.foldl bumpVersion w = { w with types := fun t ↦
      { w.types t with versionTag := (w.types t).versionTag + types.count t } } := by
  induction types generalizing w with
  | nil => rfl
  | cons head rest ih =>
    rw [List.foldl_cons, ih]
    simp only [bumpVersion, modify, mk.injEq, and_self, and_true]
    funext t
    by_cases same : t = head
    · subst same
      simp only [Function.update_self, List.count_cons_self, PyType.mk.injEq, and_self, and_true, true_and]
      omega
    · simp [Function.update_of_ne same, List.count_cons_of_ne (Ne.symm same)]

theorem typeModified_eq (w : World) (t : TypeId) :
    w.typeModified t = { w with types := fun s ↦
      { w.types s with
        versionTag := (w.types s).versionTag + (collectSubclasses w.subclasses [t] []).count s } } :=
  foldl_bumpVersion _ w

theorem registerAncestors_eq (w : World) (t : TypeId) (mro : List TypeId) :
    ∃ subclasses, w.registerAncestors t mro = { w with subclasses } ∧
      (∀ edge ∈ w.subclasses, edge ∈ subclasses) ∧
      ∀ ancestor ∈ mro, ancestor = t ∨ (ancestor, t) ∈ subclasses := by
  induction mro generalizing w with
  | nil => exact ⟨w.subclasses, rfl, fun _ mem ↦ mem, by simp⟩
  | cons head rest ih =>
    obtain ⟨subclasses, same, kept, registered⟩ := ih (w.registerSubclass head t)
    have first : (∀ edge ∈ w.subclasses, edge ∈ (w.registerSubclass head t).subclasses) ∧
        (head = t ∨ (head, t) ∈ (w.registerSubclass head t).subclasses) := by
      unfold registerSubclass
      split
      · next old => exact ⟨fun _ mem ↦ mem, old⟩
      · exact ⟨fun _ mem ↦ List.mem_append_left _ mem, .inr (by simp)⟩
    refine ⟨subclasses, ?_, fun edge mem ↦ kept edge (first.1 edge mem), ?_⟩
    · have others : ∀ subclasses, { w.registerSubclass head t with subclasses } =
          { w with subclasses } := by
        unfold registerSubclass
        split <;> simp
      rw [← others]
      exact same
    · intro ancestor mem
      rcases List.mem_cons.mp mem with rfl | mem
      · exact first.2.imp id (kept _)
      · exact registered ancestor mem

variable {w' start : World} {name : Name} {builtins : ℕ} {nameOf : ℕ → Name} {object : Obj}
  {t : TypeId}

theorem lookupInType_congr (namespaced : (w'.types t).namespaced = (w.types t).namespaced)
    (mro : (w'.types t).mro = (w.types t).mro)
    (own : ∀ cls ∈ (w.types t).mro, w'.ownAttr cls name = w.ownAttr cls name) :
    w'.lookupInType t name = w.lookupInType t name := by
  have found : ∀ entries : List TypeId, (∀ cls ∈ entries, w'.ownAttr cls name = w.ownAttr cls name) →
      (entries.findSome? fun cls ↦ w'.ownAttr cls name) =
        entries.findSome? fun cls ↦ w.ownAttr cls name := by
    intro entries own
    induction entries with
    | nil => rfl
    | cons head rest ih =>
      rw [List.findSome?_cons, List.findSome?_cons, own head List.mem_cons_self,
        ih fun cls mem ↦ own cls (List.mem_cons_of_mem _ mem)]
  unfold lookupInType
  rw [namespaced, mro, found _ own]

/-! ## What a change of a class leaves -/

/-- The type is registered under every type of its linearization. -/
def Registered (w : World) (t : TypeId) : Prop :=
  ∀ ancestor ∈ (w.types t).mro, ancestor = t ∨ (ancestor, t) ∈ w.subclasses

/-- The types keep their linearizations, and a lookup changes only with the tag of its type. -/
structure Keeps (w w' : World) : Prop where
  typeCount : w.typeCount ≤ w'.typeCount
  subclasses : ∀ edge ∈ w.subclasses, edge ∈ w'.subclasses
  mro : ∀ t < w.typeCount, (w'.types t).mro = (w.types t).mro
  name : ∀ t < w.typeCount, (w'.types t).name = (w.types t).name
  obType : ∀ t < w.typeCount, (w'.types t).obType = (w.types t).obType
  versionTag : ∀ t < w.typeCount, (w.types t).versionTag ≤ (w'.types t).versionTag
  lookup : ∀ t < w.typeCount, w.Registered t → (w'.types t).versionTag = (w.types t).versionTag →
    ∀ name, w'.lookupInType t name = w.lookupInType t name

theorem Keeps.of_types_eq (types : w'.types = w.types) (typeCount : w'.typeCount = w.typeCount)
    (subclasses : w'.subclasses = w.subclasses) :
    w.Keeps w' where
  typeCount := typeCount.ge
  subclasses := by simp [subclasses]
  mro := by simp [types]
  name := by simp [types]
  obType := by simp [types]
  versionTag := by simp [types]
  lookup t _ _ _ name := by simp [lookupInType, ownAttr, types]

theorem Keeps.modify_typeModified (w : World) (k : TypeId) {change : PyType → PyType}
    (same : (change (w.types k)).mro = (w.types k).mro ∧ (change (w.types k)).name = (w.types k).name ∧
      (change (w.types k)).obType = (w.types k).obType ∧
      (change (w.types k)).versionTag = (w.types k).versionTag) :
    w.Keeps ((w.modify k change).typeModified k) := by
  obtain ⟨mro, name, obType, versionTag⟩ := same
  have other {t : TypeId} (ne : t ≠ k) : (w.modify k change).types t = w.types t :=
    Function.update_of_ne ne _ _
  have itself : (w.modify k change).types k = change (w.types k) := Function.update_self k _ _
  have kept {field : Type} (project : PyType → field)
      (same : project (change (w.types k)) = project (w.types k)) (t : TypeId) :
      project ((w.modify k change).types t) = project (w.types t) := by
    by_cases here : t = k
    · rw [here, itself, same]
    · rw [other here]
  rw [typeModified_eq]
  refine {
    typeCount := Nat.le_refl _
    subclasses := fun _ mem ↦ mem
    mro := fun t _ ↦ kept PyType.mro mro t
    name := fun t _ ↦ kept PyType.name name t
    obType := fun t _ ↦ kept PyType.obType obType t
    versionTag := fun t _ ↦ (kept PyType.versionTag versionTag t).ge.trans (Nat.le_add_right _ _)
    lookup := fun t _ registered unchanged attr ↦ ?_ }
  simp only [kept PyType.versionTag versionTag t, Nat.add_eq_left, List.count_eq_zero] at unchanged
  -- the tag of the type is the old one, so the changed type is not in its linearization
  have above {cls : TypeId} (mem : cls ∈ (w.types t).mro) : cls ≠ k := by
    rintro rfl
    refine unchanged (mem_collectSubclasses_start ?_)
    exact (registered cls mem).imp Eq.symm id
  have notItself : t ≠ k := fun here ↦ unchanged (mem_collectSubclasses_start (.inl here))
  refine lookupInType_congr ?_ (kept PyType.mro mro t) fun cls mem ↦ ?_
  · simp only [other notItself]
  · simp only [ownAttr, other (above mem)]

/-! ## Records -/

/-- The record says how the full lookup of the name goes on instances of the type. -/
def Consistent (w : World) (t : TypeId) (name : Name) (ic : AttrIC) : Prop :=
  match ic.kind with
  | .slot => True
  | .dictOffset => name ≠ "__class__" ∧ name ≠ "__dict__" ∧
      ∀ descr, w.lookupInType t name = some descr → w.isDataDescriptor descr = false
  | .descriptor => ∃ descr, ic.descriptor = some descr ∧ w.lookupInType t name = some descr ∧
      if ic.offset = attrDescrProbeDict then
        name ≠ "__class__" ∧ name ≠ "__dict__" ∧ w.isDataDescriptor descr = false
      else w.isDataDescriptor descr = true

/-- A value that a class namespace binds. -/
def Bound (w : World) (value : Obj) : Prop :=
  ∃ t < w.typeCount, ∃ name, w.ownAttr t name = some value

/-- No value that a class namespace binds becomes or ceases to be a data descriptor while a cell holds a
record. -/
def KeepsDescriptors (w w' : World) : Prop :=
  ∀ cell record, w.cells cell = some record →
    ∀ value, w.Bound value → w'.isDataDescriptor value = w.isDataDescriptor value

theorem bound_of_lookup (bounded : ∀ cls ∈ (w.types t).mro, cls < w.typeCount)
    {value : Obj} (found : w.lookupInType t name = some value) : w.Bound value := by
  unfold lookupInType at found
  split_ifs at found
  obtain ⟨cls, mem, own⟩ := List.exists_of_findSome?_eq_some found
  exact ⟨cls, bounded cls mem, name, own⟩

theorem Consistent.keep {ic : AttrIC} (h : w.Consistent t name ic)
    (bounded : ∀ cls ∈ (w.types t).mro, cls < w.typeCount)
    (lookup : w'.lookupInType t name = w.lookupInType t name)
    (descriptors : ∀ value, w.Bound value → w'.isDataDescriptor value = w.isDataDescriptor value) :
    w'.Consistent t name ic := by
  unfold Consistent at h ⊢
  rw [lookup]
  split at h
  · trivial
  · obtain ⟨notClass, notDict, nonData⟩ := h
    refine ⟨notClass, notDict, fun descr found ↦ ?_⟩
    rw [descriptors descr (bound_of_lookup bounded found)]
    exact nonData descr found
  · obtain ⟨descr, isDescr, found, data⟩ := h
    refine ⟨descr, isDescr, found, ?_⟩
    rw [descriptors descr (bound_of_lookup bounded found)]
    exact data

/-- The invariant of a run. Types from `builtins` on have been created in the run; only these are known
to be registered under their ancestors. -/
structure Sound (builtins : ℕ) (nameOf : ℕ → Name) (w : World) : Prop where
  mro : ∀ t < w.typeCount, ∀ cls ∈ (w.types t).mro, cls < w.typeCount
  metatypes : ∀ t < w.typeCount, (w.types t).obType < w.typeCount
  instances : ∀ i, (w.instances i).obType < w.typeCount
  registered : ∀ t < w.typeCount, builtins ≤ t → w.Registered t
  cells : ∀ cell t ic, w.cells cell = some (t, ic) → t < w.typeCount ∧ w.isMetatype t = false ∧
    ic.typeVersion ≤ (w.types t).versionTag ∧
    (builtins ≤ t → ic.typeVersion = (w.types t).versionTag → w.Consistent t (nameOf cell) ic)

theorem Keeps.isMetatype (keeps : w.Keeps w') (inside : t < w.typeCount)
    (bounded : ∀ cls ∈ (w.types t).mro, cls < w.typeCount) : w'.isMetatype t = w.isMetatype t := by
  have names : ∀ entries : List TypeId, (∀ cls ∈ entries, cls < w.typeCount) →
      (entries.any fun entry ↦ (w'.types entry).name = "type") =
        entries.any fun entry ↦ (w.types entry).name = "type" := by
    intro entries bounded
    induction entries with
    | nil => rfl
    | cons head rest ih =>
      rw [List.any_cons, List.any_cons, keeps.name head (bounded head List.mem_cons_self),
        ih fun cls mem ↦ bounded cls (List.mem_cons_of_mem _ mem)]
  unfold World.isMetatype
  rw [keeps.name t inside, keeps.mro t inside, names _ bounded]

/-- A step that keeps lookups and descriptors keeps the records right. -/
theorem Sound.keep (h : Sound builtins nameOf w) (keeps : w.Keeps w')
    (descriptors : w.KeepsDescriptors w') (cells : w'.cells = w.cells)
    (instances : ∀ i, (w'.instances i).obType < w'.typeCount)
    (created : ∀ t < w'.typeCount, w.typeCount ≤ t →
      (∀ cls ∈ (w'.types t).mro, cls < w'.typeCount) ∧ (w'.types t).obType < w'.typeCount ∧
        w'.Registered t) : Sound builtins nameOf w' where
  mro t inside cls mem := by
    rcases Nat.lt_or_ge t w.typeCount with old | new
    · rw [keeps.mro t old] at mem
      exact (h.mro t old cls mem).trans_le keeps.typeCount
    · exact (created t inside new).1 cls mem
  metatypes t inside := by
    rcases Nat.lt_or_ge t w.typeCount with old | new
    · rw [keeps.obType t old]
      exact (h.metatypes t old).trans_le keeps.typeCount
    · exact (created t inside new).2.1
  instances := instances
  registered t inside late := by
    rcases Nat.lt_or_ge t w.typeCount with old | new
    · intro ancestor mem
      rw [keeps.mro t old] at mem
      exact (h.registered t old late ancestor mem).imp id (keeps.subclasses _)
    · exact (created t inside new).2.2
  cells cell t ic found := by
    rw [cells] at found
    obtain ⟨inside, notMeta, older, consistent⟩ := h.cells cell t ic found
    have tagLe := keeps.versionTag t inside
    refine ⟨inside.trans_le keeps.typeCount, ?_, older.trans tagLe, fun late current ↦ ?_⟩
    · rw [keeps.isMetatype inside (h.mro t inside), notMeta]
    · -- the record is older than any change, so the tag has not changed
      have same : (w'.types t).versionTag = (w.types t).versionTag := by omega
      refine (consistent late (current.trans same)).keep (h.mro t inside) ?_ (descriptors cell _ found)
      exact keeps.lookup t inside (h.registered t inside late) same _

/-! ## Loads -/

/-- Nothing but the cell after the load depends on the cell. -/
theorem getAttrUncached_action (object : Obj) (name : Name) (cell cell' : FeedbackCell) :
    (w.getAttrUncached object name cell).1 = (w.getAttrUncached object name cell').1 := by
  unfold getAttrUncached
  split
  · cases object <;> rfl
  · simp only [getInstanceAttr]
    split
    · rfl
    · split_ifs
      · rfl
      · rfl
      · rfl
      · split
        · rfl
        · split <;> rfl

/-- The replay of a consistent record is the full lookup. -/
theorem replay_eq {ic : AttrIC} {action : Action} (notType : w.isTypeObject object = false)
    (consistent : w.Consistent (w.objectType object) name ic)
    (replayed : w.replay object name ic = some action) (cell : FeedbackCell) :
    (w.getAttrUncached object name cell).1 = action := by
  unfold Consistent at consistent
  unfold getAttrUncached
  rw [notType]
  simp only [replay] at replayed
  simp only [Bool.false_eq_true, if_false, getInstanceAttr]
  cases kind : ic.kind with
  | slot => simp [kind] at replayed
  | dictOffset =>
    simp only [kind] at consistent replayed
    obtain ⟨notClass, notDict, nonData⟩ := consistent
    obtain ⟨value, found, rfl⟩ := Option.map_eq_some_iff.mp replayed
    have noData : (w.lookupInType (w.objectType object) name).filter w.isDataDescriptor = none := by
      rw [Option.filter_eq_none_iff]
      intro descr isDescr
      simp [nonData descr isDescr]
    simp [noData, notClass, notDict, found]
  | descriptor =>
    simp only [kind] at consistent replayed
    obtain ⟨descr, isDescr, found, data⟩ := consistent
    split_ifs at data replayed
    · obtain ⟨notClass, notDict, nonData⟩ := data
      obtain rfl := Option.some.inj replayed
      cases w.instanceDictValue object name <;>
        simp [found, Option.filter, nonData, notClass, notDict, isDescr]
    · obtain rfl := Option.some.inj replayed
      simp [found, Option.filter, data, isDescr]

/-- What a load leaves in the cell: the old record, or a right one for the class of the receiver. -/
theorem getAttrUncached_cell (object : Obj) (name : Name) (cell : FeedbackCell) :
    (w.getAttrUncached object name cell).2 = cell ∨
      w.isTypeObject object = false ∧ ∃ ic, ic.typeVersion = (w.types (w.objectType object)).versionTag ∧
        (w.getAttrUncached object name cell).2 = some (w.objectType object, ic) ∧
        w.Consistent (w.objectType object) name ic := by
  have recorded {ic : AttrIC} (consistent : w.Consistent (w.objectType object) name ic)
      (version : ic.typeVersion = (w.types (w.objectType object)).versionTag)
      (notType : w.isTypeObject object = false) :
      cell.recordAttr (w.objectType object) ic = cell ∨
        w.isTypeObject object = false ∧ ∃ ic', ic'.typeVersion = (w.types (w.objectType object)).versionTag ∧
          cell.recordAttr (w.objectType object) ic = some (w.objectType object, ic') ∧
          w.Consistent (w.objectType object) name ic' := by
    unfold FeedbackCell.recordAttr
    split
    · exact .inl rfl
    · exact .inr ⟨notType, ic, version, rfl, consistent⟩
  unfold getAttrUncached
  split
  · cases object <;> exact .inl rfl
  · next notType =>
    have notType : w.isTypeObject object = false := by simpa using notType
    simp only [getInstanceAttr]
    split
    · next descr isData =>
      obtain ⟨found, data⟩ := Option.filter_eq_some_iff.mp isData
      refine recorded ⟨descr, rfl, found, ?_⟩ rfl notType
      rw [if_neg (show attrDescrBlind ≠ attrDescrProbeDict by decide)]
      exact data
    · next noData =>
      have nonData (descr : Obj) (found : w.lookupInType (w.objectType object) name = some descr) :
          w.isDataDescriptor descr = false := by
        simpa using Option.filter_eq_none_iff.mp noData descr found
      split_ifs with isClass isDict
      · exact .inl rfl
      · exact .inl rfl
      · exact .inl rfl
      · split
        · exact recorded ⟨isClass, isDict, nonData⟩ rfl notType
        · split
          · next descr found =>
            refine recorded ⟨descr, rfl, found, ?_⟩ rfl notType
            rw [if_pos rfl]
            exact ⟨isClass, isDict, nonData descr found⟩
          · exact .inl rfl

theorem genericGetAttrCached_cell (object : Obj) (name : Name) (cell : FeedbackCell) :
    (w.genericGetAttrCached object name (some cell)).2 = cell ∨
      (w.genericGetAttrCached object name (some cell)).2 = (w.getAttrUncached object name cell).2 := by
  unfold genericGetAttrCached
  simp only
  split
  · exact .inl rfl
  · exact .inr rfl

/-- An object that exists. -/
def Live (w : World) : Obj → Prop
  | .type t => t < w.typeCount
  | .plain _ => True

theorem Sound.objectType_lt (h : Sound builtins nameOf w) (live : w.Live object) :
    w.objectType object < w.typeCount := by
  cases object with
  | type t => exact h.metatypes t live
  | plain i => exact h.instances i

theorem Sound.loadAttr (h : Sound builtins nameOf w) (cell : ℕ) (live : w.Live object) :
    Sound builtins nameOf (w.step nameOf (.loadAttr cell object)) := by
  refine { h with cells := fun other t ic found ↦ ?_ }
  simp only [step] at found
  by_cases same : other = cell
  · subst same
    rw [Function.update_self] at found
    rcases genericGetAttrCached_cell (w := w) object (nameOf other) (w.cells other) with old | full
    · rw [old] at found
      exact h.cells other t ic found
    · rw [full] at found
      rcases getAttrUncached_cell (w := w) object (nameOf other) (w.cells other) with
        old | ⟨notType, record, version, isRecord, consistent⟩
      · rw [old] at found
        exact h.cells other t ic found
      · rw [isRecord] at found
        cases found
        exact ⟨h.objectType_lt live, notType, version.le, fun _ _ ↦ consistent⟩
  · rw [Function.update_of_ne same] at found
    exact h.cells other t ic found

/-! ## Runs -/

/-- What a store or delete can change: nothing, one instance, or the namespace of one type. -/
inductive StoreChange (w : World) (name : Name) (value : Option Obj) : World → Prop
  | unchanged : StoreChange w name value w
  | instance_ (i : ℕ) (change : Instance → Instance) :
      (change (w.instances i)).obType = (w.instances i).obType ∨
        value = some (.type (change (w.instances i)).obType) →
      StoreChange w name value (w.setInstance i change)
  | type (t : TypeId) (dict : Namespace Obj) : StoreChange w name value (w.setOwnAttr t dict name value)

section

variable (object : Obj) (name : Name) (value : Option Obj)

theorem setInstanceDict_change (entries : Option (Namespace Obj)) :
    StoreChange w name value (w.setInstanceDict object value entries).2 := by
  unfold setInstanceDict
  split
  · split
    · dsimp only
      exact .instance_ _ _ (.inl rfl)
    · exact .unchanged
  · exact .unchanged

theorem setInstanceClass_change :
    StoreChange w name value (w.setInstanceClass object value).2 := by
  unfold setInstanceClass
  split
  · split
    · dsimp only
      exact .instance_ _ _ (.inr rfl)
    · exact .unchanged
  · exact .unchanged

theorem genericSetAttr_change (entries : Option (Namespace Obj)) :
    StoreChange w name value (w.genericSetAttr object name value entries).2 := by
  unfold genericSetAttr
  simp only
  split
  · exact setInstanceDict_change object name value entries
  split
  · exact setInstanceClass_change object name value
  split
  · exact .unchanged
  split
  · split
    · exact .unchanged
    · split
      · exact .unchanged
      · exact .type _ _
  · split
    · exact .unchanged
    · split
      · dsimp only
        exact .instance_ _ _ (.inl rfl)
      · split
        · exact .unchanged
        · split
          · exact .unchanged
          · dsimp only
            exact .instance_ _ _ (.inl rfl)
  · exact .unchanged

end

/-- The objects and types that an event mentions exist. -/
def Legal (w : World) : Event → Prop
  | .constructClass objectType spec => spec.metaclass < w.typeCount ∧
      ∀ base ∈ w.baseTypes objectType spec, base < w.typeCount
  | .newInstance _ instance_ => instance_.obType < w.typeCount
  | .loadAttr _ object => w.Live object
  | .setAttr object _ value _ => w.Live object ∧ ∀ v ∈ value, w.Live v
  | .typeSetterReturned t | .storeOwnAttr t _ _ | .installSurface t _ => t < w.typeCount

/-- The linearization of a new class has the class and types of its bases. -/
theorem mem_computeC3Mro {objectType : Option TypeId} {bases mro : List TypeId}
    (h : Class.computeC3Mro objectType (some t) (bases.map fun base ↦ some (w.linearized base)) =
      .ok mro) {cls : TypeId} (mem : cls ∈ mro) :
    cls = t ∨ ∃ base ∈ bases, cls = base ∨ cls ∈ (w.types base).mro := by
  have same : (bases.map fun base ↦ some (w.linearized base)) =
      (bases.map w.linearized).map some := by simp
  rw [same, Class.computeC3Mro_some] at h
  obtain ⟨order, rfl, merges⟩ := Class.mergeLoop_ok h
  rcases List.mem_append.mp mem with first | later
  · exact .inl (List.mem_singleton.mp first)
  · obtain ⟨seq, isSeq, mem⟩ := (merges.mem_iff).mp later
    rcases List.mem_append.mp isSeq with linear | addresses
    · simp only [List.map_map, List.mem_map, Function.comp_apply] at linear
      obtain ⟨base, isBase, rfl⟩ := linear
      exact .inr ⟨base, isBase, .inr mem⟩
    · obtain rfl := List.mem_singleton.mp addresses
      simp only [List.map_map, List.mem_map, Function.comp_apply] at mem
      obtain ⟨base, isBase, rfl⟩ := mem
      exact .inr ⟨base, isBase, .inl rfl⟩

section Steps

variable {builtins : ℕ} {nameOf : ℕ → Name}

variable {objectType : Option TypeId} {spec : ClassSpec}

theorem constructClass_error {message : String}
    (computed : Class.computeC3Mro objectType (some w.typeCount)
      ((w.baseTypes objectType spec).map fun base ↦ some (w.linearized base)) = .error message) :
    w.constructClass objectType spec = w := by
  simp [World.constructClass, computed]

/-- A new class is registered under all types of its linearization. -/
theorem constructClass_ok {mro : List TypeId}
    (computed : Class.computeC3Mro objectType (some w.typeCount)
      ((w.baseTypes objectType spec).map fun base ↦ some (w.linearized base)) = .ok mro) :
    ∃ subclasses, w.constructClass objectType spec =
        { w with
          types := Function.update w.types w.typeCount (spec.pyType mro)
          typeCount := w.typeCount + 1
          subclasses } ∧
      (∀ edge ∈ w.subclasses, edge ∈ subclasses) ∧
      ∀ ancestor ∈ mro, ancestor = w.typeCount ∨ (ancestor, w.typeCount) ∈ subclasses := by
  obtain ⟨subclasses, isResult, kept, registered⟩ := registerAncestors_eq
    { w with
      types := Function.update w.types w.typeCount (spec.pyType mro)
      typeCount := w.typeCount + 1 } w.typeCount mro
  refine ⟨subclasses, ?_, kept, registered⟩
  simp only [World.constructClass, computed]
  exact isResult

section

variable (h : Sound builtins nameOf w)
include h

theorem Sound.constructClass (legal : w.Legal (.constructClass objectType spec))
    (descriptors : w.KeepsDescriptors (w.constructClass objectType spec)) :
    Sound builtins nameOf (w.constructClass objectType spec) := by
  obtain ⟨metaclass, bases⟩ := legal
  cases computed : Class.computeC3Mro objectType (some w.typeCount)
      ((w.baseTypes objectType spec).map fun base ↦ some (w.linearized base)) with
  | error message =>
    rw [constructClass_error computed]
    exact h
  | ok mro =>
    obtain ⟨subclasses, created, kept, registered⟩ := constructClass_ok computed
    have bounded (cls : TypeId) (mem : cls ∈ mro) : cls < w.typeCount + 1 := by
      rcases mem_computeC3Mro computed mem with rfl | ⟨base, isBase, rfl | above⟩
      · exact Nat.lt_succ_self _
      · exact (bases cls isBase).trans (Nat.lt_succ_self _)
      · exact (h.mro base (bases base isBase) cls above).trans (Nat.lt_succ_self _)
    rw [created] at descriptors ⊢
    have old {t : TypeId} (inside : t < w.typeCount) :
        Function.update w.types w.typeCount (spec.pyType mro) t = w.types t :=
      Function.update_of_ne inside.ne _ _
    refine h.keep ?_ descriptors rfl (fun i ↦ (h.instances i).trans (Nat.lt_succ_self _)) ?_
    · refine {
        typeCount := Nat.le_succ _
        subclasses := kept
        mro := fun t inside ↦ congrArg PyType.mro (old inside)
        name := fun t inside ↦ congrArg PyType.name (old inside)
        obType := fun t inside ↦ congrArg PyType.obType (old inside)
        versionTag := fun t inside ↦ (congrArg PyType.versionTag (old inside)).ge
        lookup := fun t inside _ _ name ↦ ?_ }
      refine lookupInType_congr (congrArg PyType.namespaced (old inside))
        (congrArg PyType.mro (old inside)) fun cls mem ↦ ?_
      simp only [ownAttr, old (h.mro t inside cls mem)]
    · intro t inside new
      obtain rfl : t = w.typeCount := Nat.le_antisymm (Nat.le_of_lt_succ inside) new
      simp only [Registered, Function.update_self]
      exact ⟨bounded, metaclass.trans (Nat.lt_succ_self _), registered⟩

theorem Sound.modify_typeModified (k : TypeId) (change : PyType → PyType)
    (same : (change (w.types k)).mro = (w.types k).mro ∧ (change (w.types k)).name = (w.types k).name ∧
      (change (w.types k)).obType = (w.types k).obType ∧
      (change (w.types k)).versionTag = (w.types k).versionTag)
    (descriptors : w.KeepsDescriptors ((w.modify k change).typeModified k)) :
    Sound builtins nameOf ((w.modify k change).typeModified k) := by
  refine h.keep (.modify_typeModified w k same) descriptors (by rw [typeModified_eq]; rfl) ?_ ?_
  · rw [typeModified_eq]
    exact h.instances
  · intro t inside new
    rw [typeModified_eq] at inside
    exact absurd inside (Nat.not_lt.mpr new)

theorem Sound.setInstance (i : ℕ) (change : Instance → Instance)
    (inside : (change (w.instances i)).obType < w.typeCount)
    (descriptors : w.KeepsDescriptors (w.setInstance i change)) :
    Sound builtins nameOf (w.setInstance i change) := by
  refine h.keep (.of_types_eq rfl rfl rfl) descriptors rfl (fun j ↦ ?_)
    fun t inside new ↦ absurd inside (Nat.not_lt.mpr new)
  by_cases same : j = i
  · subst same
    simpa [World.setInstance] using inside
  · simpa [World.setInstance, Function.update_of_ne same] using h.instances j

end

theorem updateSlotFromDunder_same (name : Name) (value : Option Obj) (ty : PyType) :
    (updateSlotFromDunder name value ty).mro = ty.mro ∧
      (updateSlotFromDunder name value ty).name = ty.name ∧
      (updateSlotFromDunder name value ty).obType = ty.obType ∧
      (updateSlotFromDunder name value ty).versionTag = ty.versionTag := by
  unfold updateSlotFromDunder
  split_ifs <;> exact ⟨rfl, rfl, rfl, rfl⟩

theorem Sound.step (h : Sound builtins nameOf w) {event : Event} (legal : w.Legal event)
    (descriptors : w.KeepsDescriptors (w.step nameOf event)) :
    Sound builtins nameOf (w.step nameOf event) := by
  cases event with
  | constructClass objectType spec => exact h.constructClass legal descriptors
  | newInstance id instance_ => exact h.setInstance id (fun _ ↦ instance_) legal descriptors
  | loadAttr cell object => exact h.loadAttr cell legal
  | setAttr object name value entries =>
    have changed := genericSetAttr_change (w := w) object name value entries
    simp only [World.step] at descriptors ⊢
    generalize (w.genericSetAttr object name value entries).2 = next at changed descriptors ⊢
    cases changed with
    | unchanged => exact h
    | instance_ i change obType =>
      refine h.setInstance i change ?_ descriptors
      rcases obType with kept | replaced
      · rw [kept]
        exact h.instances i
      · exact legal.2 _ replaced
    | type t dict =>
      exact h.modify_typeModified t _ (updateSlotFromDunder_same name value _) descriptors
  | typeSetterReturned t =>
    have same : w.modify t id = w := by simp [World.modify]
    have modified := h.modify_typeModified t id ⟨rfl, rfl, rfl, rfl⟩
    rw [same] at modified
    exact modified descriptors
  | storeOwnAttr t name value =>
    exact h.modify_typeModified t _ (updateSlotFromDunder_same name value _) descriptors
  | installSurface t dict => exact h.modify_typeModified t _ ⟨rfl, rfl, rfl, rfl⟩ descriptors

end Steps

/-- The worlds that a run reaches from a start, as long as no step taken with a record changes whether a
value that a class namespace binds is a data descriptor. -/
inductive Reaches (nameOf : ℕ → Name) (start : World) : World → Prop
  | refl : Reaches nameOf start start
  | step {w : World} {event : Event} : Reaches nameOf start w → w.Legal event →
      w.KeepsDescriptors (w.step nameOf event) → Reaches nameOf start (w.step nameOf event)

/-- A start has no records. -/
structure IsStart (start : World) : Prop where
  mro : ∀ t < start.typeCount, ∀ cls ∈ (start.types t).mro, cls < start.typeCount
  metatypes : ∀ t < start.typeCount, (start.types t).obType < start.typeCount
  instances : ∀ i, (start.instances i).obType < start.typeCount
  cells : ∀ cell, start.cells cell = none

theorem Reaches.sound (isStart : start.IsStart) (reaches : Reaches nameOf start w) :
    Sound start.typeCount nameOf w := by
  induction reaches with
  | refl => exact { isStart with
      registered := fun t inside late ↦ absurd inside (Nat.not_lt.mpr late)
      cells := fun cell t ic found ↦ by simp [isStart.cells] at found }
  | step _ legal descriptors ih => exact ih.step legal descriptors

/-- On type objects and on instances of classes that the run has created, a load with a cell gives what
the load without a cell gives. -/
theorem getAttr_cached_eq {nameOf : ℕ → Name} {start : World} (isStart : start.IsStart)
    (reaches : Reaches nameOf start w) (cell : ℕ) (object : Obj)
    (created : w.isTypeObject object = true ∨ start.typeCount ≤ w.objectType object) :
    (w.genericGetAttrCached object (nameOf cell) (some (w.cells cell))).1 =
      (w.genericGetAttrCached object (nameOf cell) none).1 := by
  have sound := reaches.sound isStart
  simp only [genericGetAttrCached]
  split
  · next action replayed =>
    obtain ⟨ic, hit, replayed⟩ := Option.bind_eq_some_iff.mp replayed
    unfold FeedbackCell.attrHit at hit
    obtain ⟨⟨t, record⟩, isRecord, hit⟩ := Option.bind_eq_some_iff.mp hit
    split_ifs at hit with guard
    obtain ⟨rfl, version⟩ := guard
    obtain rfl := Option.some.inj hit
    obtain ⟨-, notMeta, -, consistent⟩ := sound.cells cell _ record isRecord
    have late : start.typeCount ≤ w.objectType object := by
      rcases created with isType | late
      · exact absurd (isType.symm.trans notMeta) (by decide)
      · exact late
    exact (replay_eq notMeta (consistent late version) replayed none).symm
  · exact getAttrUncached_action object (nameOf cell) _ _

/-! ## A descriptor that changes its class -/

def builtinType (name : String) (mro : List TypeId) : PyType where
  obType := 1
  name := name
  mro := mro
  tpDict := none
  namespaced := true
  versionTag := versionTagSeed
  tpDescrGet := false
  tpDescrSet := false
  heapInstancePrefix := false
  tpBasicsize := 16
  tpItemsize := 0
  tpDictoffset := 0
  syntheticAttrs := []

/-- A world with the types `object` and `type` only. -/
def bareWorld : World where
  types t := if t = 0 then builtinType "object" [0] else builtinType "type" [1, 0]
  typeCount := 2
  instances _ := ⟨0, none, []⟩
  subclasses := []
  cells _ := none

theorem bareWorld_isStart : bareWorld.IsStart where
  mro t _ cls mem := by
    by_cases first : t = 0
    · have isObject : cls = 0 := by simpa [bareWorld, builtinType, first] using mem
      exact isObject ▸ Nat.zero_lt_two
    · have isBuiltin : cls = 1 ∨ cls = 0 := by simpa [bareWorld, builtinType, first] using mem
      rcases isBuiltin with rfl | rfl <;> decide
  metatypes t _ := by
    by_cases first : t = 0 <;> simp [bareWorld, builtinType, first]
  instances i := by simp [bareWorld]
  cells cell := rfl

/-- A class with `object` as its base and the bindings of a list. -/
def plainClass (name : String) (bindings : List (Name × Obj)) : ClassSpec where
  metaclass := 1
  name := name
  bases := [0]
  dict := fun attr ↦ bindings.lookup attr
  tpBasicsize := heapBasicsize
  tpDictoffset := 1
  heapInstancePrefix := true

def emptyInstance (t : TypeId) : Instance := ⟨t, some fun _ ↦ none, []⟩

/-- A class `C` binds `x` to an instance of `D`, which has `__get__` only. An instance of `C` gets an
attribute `x` of its own, and `x` is loaded through a cell. -/
def shadowedEvents : List Event :=
  [.constructClass none (plainClass "D" [("__get__", .plain 9)]),
    .constructClass none (plainClass "E" [("__get__", .plain 9), ("__set__", .plain 9)]),
    .newInstance 0 (emptyInstance 2),
    .constructClass none (plainClass "C" [("x", .plain 0)]),
    .newInstance 1 (emptyInstance 4),
    .setAttr (.plain 1) "x" (some (.plain 8)) none,
    .loadAttr 0 (.plain 1)]

/-- The instance of `D` becomes one of `E`, which has `__set__` as well. -/
def reclassEvent : Event := .setAttr (.plain 0) "__class__" (some (.type 3)) none

def runEvents (w : World) (events : List Event) : World :=
  events.foldl (fun w event ↦ w.step (fun _ ↦ "x") event) w

/-- A run as it is described without the descriptors of instance records: no class of a descriptor that
some cell has recorded is changed. -/
inductive ReachesRecorded (nameOf : ℕ → Name) (start : World) : (Obj → Prop) → World → Prop
  | refl : ReachesRecorded nameOf start (fun _ ↦ False) start
  | step {recorded : Obj → Prop} {w : World} {event : Event} :
      ReachesRecorded nameOf start recorded w → w.Legal event →
      (∀ descr, recorded descr →
        (w.step nameOf event).types (w.objectType descr) = w.types (w.objectType descr)) →
      ReachesRecorded nameOf start
        (fun descr ↦ recorded descr ∨ ∃ cell t ic, (w.step nameOf event).cells cell = some (t, ic) ∧
          ic.descriptor = some descr)
        (w.step nameOf event)

/-- No record of a cell has a descriptor. -/
def NoDescriptor (w : World) : Prop := ∀ cell t ic, w.cells cell = some (t, ic) → ic.descriptor = none

theorem cells_constructClass (objectType : Option TypeId) (spec : ClassSpec) :
    (w.constructClass objectType spec).cells = w.cells := by
  cases computed : Class.computeC3Mro objectType (some w.typeCount)
      ((w.baseTypes objectType spec).map fun base ↦ some (w.linearized base)) with
  | error message => rw [constructClass_error computed]
  | ok mro =>
    obtain ⟨subclasses, created, -⟩ := constructClass_ok computed
    rw [created]

theorem cells_genericSetAttr (object : Obj) (name : Name) (value : Option Obj)
    (entries : Option (Namespace Obj)) :
    (w.genericSetAttr object name value entries).2.cells = w.cells := by
  have changed := genericSetAttr_change (w := w) object name value entries
  generalize (w.genericSetAttr object name value entries).2 = next at changed ⊢
  cases changed with
  | unchanged | instance_ i change obType => rfl
  | type t dict =>
    rw [setOwnAttr, typeModified_eq]
    rfl

theorem legal_plainClass (count : 2 ≤ w.typeCount) (name : String) (bindings : List (Name × Obj)) :
    w.Legal (.constructClass none (plainClass name bindings)) := by
  refine ⟨count, fun base mem ↦ ?_⟩
  have isObject : base = 0 := by simpa [baseTypes, plainClass] using mem
  exact isObject ▸ Nat.lt_of_lt_of_le Nat.zero_lt_two count

/-- A run in which no cell has recorded a descriptor so far. -/
def Quiet (nameOf : ℕ → Name) (start w : World) : Prop :=
  w.NoDescriptor ∧ ∃ recorded, ReachesRecorded nameOf start recorded w ∧ ∀ descr, ¬recorded descr

section

variable (h : Quiet nameOf start w)
include h

theorem Quiet.step (event : Event) (legal : w.Legal event)
    (next : (w.step nameOf event).NoDescriptor) :
    Quiet nameOf start (w.step nameOf event) := by
  obtain ⟨-, recorded, reaches, none⟩ := h
  refine ⟨next, _, .step reaches legal fun descr before ↦ absurd before (none descr), ?_⟩
  rintro descr (before | ⟨cell, t, ic, found, isDescr⟩)
  · exact none descr before
  · rw [next cell t ic found] at isDescr
    cases isDescr

theorem Quiet.of_cells (event : Event) (legal : w.Legal event)
    (cells : (w.step nameOf event).cells = w.cells) :
    Quiet nameOf start (w.step nameOf event) :=
  h.step event legal fun cell t ic found ↦ h.1 cell t ic (cells ▸ found)

theorem Quiet.plainClass (count : 2 ≤ w.typeCount) (name : String)
    (bindings : List (Name × Obj)) :
    Quiet nameOf start (w.step nameOf (.constructClass none (World.plainClass name bindings))) :=
  h.of_cells _ (legal_plainClass count name bindings) (cells_constructClass _ _)

end

theorem shadowed_quiet :
    Quiet (fun _ ↦ "x") bareWorld (runEvents bareWorld (shadowedEvents ++ [reclassEvent])) := by
  have begins : Quiet (fun _ ↦ "x") bareWorld bareWorld :=
    ⟨fun _ _ _ found ↦ (nomatch found), fun _ ↦ False, .refl, fun _ ↦ id⟩
  have d := begins.plainClass (by decide) "D" [("__get__", .plain 9)]
  have e := d.plainClass (by decide +kernel) "E" [("__get__", .plain 9), ("__set__", .plain 9)]
  have descr := e.of_cells (.newInstance 0 (emptyInstance 2))
    (show 2 < World.typeCount _ by decide +kernel) rfl
  have c := descr.plainClass (by decide +kernel) "C" [("x", .plain 0)]
  have receiver := c.of_cells (.newInstance 1 (emptyInstance 4))
    (show 4 < World.typeCount _ by decide +kernel) rfl
  have stored := receiver.of_cells (.setAttr (.plain 1) "x" (some (.plain 8)) none)
    ⟨trivial, by rintro _ ⟨⟩; trivial⟩ (cells_genericSetAttr _ _ _ _)
  have record : (runEvents bareWorld shadowedEvents).cells 0 = some (4, ⟨1, .dictOffset, 0, none⟩) := by
    decide +kernel
  have loaded := stored.step (.loadAttr 0 (.plain 1)) trivial fun cell t ic found ↦ by
    by_cases first : cell = 0
    · rw [first] at found
      cases record.symm.trans found
      rfl
    · have before : _ = some (t, ic) := (Function.update_of_ne first _ _).symm.trans found
      exact stored.1 cell t ic before
  exact loaded.of_cells reclassEvent
    ⟨trivial, by rintro _ ⟨⟩; show 3 < World.typeCount _; decide +kernel⟩ (cells_genericSetAttr _ _ _ _)

/-- The record of the instance attribute survives the change of the descriptor. -/
theorem cached_load_stale :
    ¬∀ start : World, start.IsStart → ∀ nameOf recorded w, ReachesRecorded nameOf start recorded w →
      ∀ cell object, w.Live object →
        (w.genericGetAttrCached object (nameOf cell) (some (w.cells cell))).1 =
          (w.genericGetAttrCached object (nameOf cell) none).1 := by
  intro transparent
  obtain ⟨-, recorded, reaches, -⟩ := shadowed_quiet
  have same := transparent bareWorld bareWorld_isStart _ recorded _ reaches 0 (.plain 1) trivial
  revert same
  decide +kernel

/-- A run without records so far. -/
def Fresh (nameOf : ℕ → Name) (start w : World) : Prop :=
  Reaches nameOf start w ∧ ∀ cell, w.cells cell = none

section

variable (h : Fresh nameOf start w)
include h

theorem Fresh.reaches (event : Event) (legal : w.Legal event) :
    Reaches nameOf start (w.step nameOf event) :=
  .step h.1 legal fun cell _ found ↦ nomatch (h.2 cell).symm.trans found

theorem Fresh.of_cells (event : Event) (legal : w.Legal event)
    (cells : (w.step nameOf event).cells = w.cells) : Fresh nameOf start (w.step nameOf event) :=
  ⟨h.reaches event legal, cells ▸ h.2⟩

theorem Fresh.plainClass (count : 2 ≤ w.typeCount) (name : String) (bindings : List (Name × Obj)) :
    Fresh nameOf start (w.step nameOf (.constructClass none (World.plainClass name bindings))) :=
  h.of_cells _ (legal_plainClass count name bindings) (cells_constructClass _ _)

end

/-- A class binds `x` to a descriptor, and an instance of the class is loaded through two cells. The record
of the first one is hit. -/
theorem getAttr_cached_eq_hit :
    ∃ w, Reaches (fun _ ↦ "x") bareWorld w ∧
      w.cells 0 = some (3, ⟨1, .descriptor, attrDescrProbeDict, some (.plain 0)⟩) ∧
      (w.genericGetAttrCached (.plain 1) "x" (some (w.cells 0))).1 =
        (w.genericGetAttrCached (.plain 1) "x" none).1 := by
  have begins : Fresh (fun _ ↦ "x") bareWorld bareWorld := ⟨.refl, fun _ ↦ rfl⟩
  have d := begins.plainClass (by decide) "D" [("__get__", .plain 9)]
  have descr := d.of_cells (.newInstance 0 (emptyInstance 2))
    (show 2 < World.typeCount _ by decide +kernel) rfl
  have c := descr.plainClass (by decide +kernel) "C" [("x", .plain 0)]
  have receiver := c.of_cells (.newInstance 1 (emptyInstance 3))
    (show 3 < World.typeCount _ by decide +kernel) rfl
  have recorded := receiver.reaches (.loadAttr 0 (.plain 1)) trivial
  have loaded := @Reaches.step _ _ _ (.loadAttr 1 (.plain 1)) recorded trivial fun _ _ _ _ _ ↦ rfl
  refine ⟨_, loaded, by decide +kernel, ?_⟩
  exact getAttr_cached_eq bareWorld_isStart loaded 0 (.plain 1) (.inr (by decide +kernel))

end World

end Pon.Attr
