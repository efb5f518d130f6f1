import Pon.Codegen.Infer

/-!
# What the pass knows

Every entry of the tables comes from an instruction that the pass has seen: the type of a value from its
definition, a name from a load of it, a range from a call. The type of a local only grows, so that it
covers the type of every earlier store.
-/

namespace Pon.Codegen.Infer

open Ir

/-- The name that an instruction loads. -/
def loadsName : InstKind Value → Option NameId
  | .loadBuiltin name | .loadGlobal name | .loadName name => some name
  | _ => none

/-- What an instruction adds to the tables. -/
inductive Adds (t : Tables) (result : Value) : InstKind Value → Tables → Prop
  | nothing {kind : InstKind Value} : Adds t result kind t
  | store {slot : LocalId} {value : Value} :
      Adds t result (.storeLocal slot value) (t.storeLocalType slot (t.valueType value))
  | name {kind : InstKind Value} {name : NameId} : loadsName kind = some name →
      Adds t result kind { t with valueNames := Function.update t.valueNames result (some name) }
  | range {callee : Value} {args : List Value} : t.IsRangeCall callee args →
      Adds t result (.call callee args) { t with rangeValues := insert result t.rangeValues }
  | iter {iterable : Value} : iterable ∈ t.rangeValues →
      Adds t result (.getIter iterable) { t with rangeIters := insert result t.rangeIters }

theorem inferInst_adds (t : Tables) (result : Value) (kind : InstKind Value) :
    Adds t result kind (t.inferInst result kind).2 := by
  unfold Tables.inferInst
  split
  case h_3 => exact .store
  case h_15 | h_16 | h_17 => exact .name rfl
  case h_18 callee args =>
    unfold Tables.callType
    split_ifs with isLen isRange
    · exact .nothing
    · exact .range isRange
    · exact .nothing
  case h_19 iterable =>
    split_ifs with isRange
    · exact .iter isRange
    · exact .nothing
  all_goals exact .nothing

theorem Tables.storeLocalType_localType (t : Tables) (slot other : LocalId) (ty : Ty) :
    (t.storeLocalType slot ty).localType other =
      if slot = other ∧ other < t.locals.length then (t.localType other).join ty
      else t.localType other := by
  simp only [Tables.storeLocalType, Tables.localType, List.getElem?_modify]
  by_cases inside : other < t.locals.length
  · by_cases same : slot = other <;> simp [inside, same]
  · simp [inside]

/-- The property passes from a type to every join with it. -/
def Upward (p : Ty → Prop) : Prop := ∀ lhs rhs, p lhs ∨ p rhs → p (lhs.join rhs)

section Upward

variable {p : Ty → Prop} {t : Tables} {slot : LocalId}

theorem visitInst_localType (upward : Upward p) (inst : Inst) (holds : p (t.localType slot)) :
    p ((t.visitInst inst).2.localType slot) := by
  have adds := inferInst_adds t inst.result inst.kind
  change p ((t.inferInst inst.result inst.kind).2.localType slot)
  generalize (t.inferInst inst.result inst.kind).2 = t' at adds ⊢
  generalize inst.kind = kind at adds
  cases adds with
  | store =>
    rw [Tables.storeLocalType_localType]
    split_ifs
    · exact upward _ _ (.inl holds)
    · exact holds
  | _ => exact holds

theorem inferInsts_localType (upward : Upward p) (insts : List Inst) (holds : p (t.localType slot)) :
    p ((inferInsts insts t).2.localType slot) := by
  induction insts generalizing t with
  | nil => exact holds
  | cons inst rest ih => exact ih (visitInst_localType upward inst holds)

/-- A store reaches the type of its local, also where the local does not exist. -/
theorem visitInst_stored (upward : Upward p) (object : p .object) {inst : Inst} {value : Value}
    (store : inst.kind = .storeLocal slot value) (holds : p (t.valueType value)) :
    p ((t.visitInst inst).2.localType slot) := by
  have after : (t.visitInst inst).2.localType slot =
      (t.storeLocalType slot (t.valueType value)).localType slot := by
    simp only [Tables.visitInst, store, Tables.inferInst, Tables.localType]
  rw [after, Tables.storeLocalType_localType]
  split_ifs with inside
  · exact upward _ _ (.inr holds)
  · have outside : t.locals[slot]? = none := List.getElem?_eq_none (not_lt.mp fun lt ↦ inside ⟨rfl, lt⟩)
    rwa [Tables.localType, outside]

end Upward

theorem inferInsts_append (left right : List Inst) (t : Tables) :
    inferInsts (left ++ right) t =
      ((inferInsts left t).1 ++ (inferInsts right (inferInsts left t).2).1,
        (inferInsts right (inferInsts left t).2).2) := by
  induction left generalizing t with
  | nil => rfl
  | cons inst rest ih => simp only [List.cons_append, inferInsts, ih]

section Sources

variable (f : Function) (annotations : Option FunctionAnnotations)

/-- The tables when the pass comes to the definition of a value. -/
def tablesBefore (value : Value) : Tables :=
  (inferInsts (f.insts.takeWhile (·.result ≠ value)) (startTables f annotations)).2

/-- The type that the pass infers for an instruction, before the return annotation. -/
def observedType (inst : Inst) : Ty :=
  ((tablesBefore f annotations inst.result).inferInst inst.result inst.kind).1

/-- Values have one definition, and the type metadata is that of new instructions. -/
structure Raw : Prop where
  wellFormed : f.WellFormed
  fresh : ∀ inst ∈ f.insts, inst.inferredType = .bottom

/-- The entries of the tables come from instructions of the function. -/
structure Sourced (t : Tables) : Prop where
  values : ∀ value ty, t.values value = some ty →
    ∃ inst ∈ f.insts, inst.result = value ∧ ty = observedType f annotations inst
  names : ∀ value name, t.valueNames value = some name →
    ∃ inst ∈ f.insts, inst.result = value ∧ loadsName inst.kind = some name
  ranges : ∀ value ∈ t.rangeValues, ∃ inst ∈ f.insts, inst.result = value ∧
    ∃ callee args, inst.kind = .call callee args ∧
      (tablesBefore f annotations value).IsRangeCall callee args
  iters : ∀ value ∈ t.rangeIters, ∃ inst ∈ f.insts, inst.result = value ∧
    ∃ iterable, inst.kind = .getIter iterable ∧
      iterable ∈ (tablesBefore f annotations value).rangeValues

variable {f annotations}

variable {inst typed : Inst} {value : Value}

theorem Raw.takeWhile_eq (raw : Raw f) {before after : List Inst}
    (split : f.insts = before ++ inst :: after) :
    f.insts.takeWhile (·.result ≠ inst.result) = before := by
  have single := raw.wellFormed.singleDefinition
  rw [split, List.map_append, List.map_cons, List.nodup_append] at single
  obtain ⟨-, -, apart⟩ := single
  rw [split, List.takeWhile_append_of_pos, List.takeWhile_cons_of_neg, List.append_nil]
  · simp
  · intro other mem
    exact decide_eq_true (apart _ (List.mem_map_of_mem mem) _ List.mem_cons_self)

@[simp]
theorem writeInferredType_result (inst : Inst) (ty : Ty) :
    (writeInferredType inst ty).result = inst.result := by
  unfold writeInferredType
  split_ifs <;> rfl

theorem writeInferredType_fresh (fresh : inst.inferredType = .bottom) (ty : Ty) :
    (writeInferredType inst ty).inferredType = ty := by
  by_cases bottom : ty = .bottom
  · rw [writeInferredType, if_pos bottom, fresh, bottom]
  · rw [writeInferredType, if_neg bottom]
    change inst.inferredType.join ty = ty
    rw [fresh]
    exact if_pos rfl

/-- What an instruction adds comes from it. -/
theorem Sourced.visitInst {t : Tables} (h : Sourced f annotations t) (raw : Raw f)
    (mem : inst ∈ f.insts) (here : t = tablesBefore f annotations inst.result) :
    Sourced f annotations (t.visitInst inst).2 := by
  have adds := inferInst_adds t inst.result inst.kind
  have written := writeInferredType_fresh (raw.fresh inst mem) (t.inferInst inst.result inst.kind).1
  have observed : (t.inferInst inst.result inst.kind).1 = observedType f annotations inst := by
    rw [observedType, here]
  rw [observed] at written
  have after : (t.visitInst inst).2 =
      let t' := (t.inferInst inst.result inst.kind).2
      { t' with values :=
          Function.update t'.values inst.result (some (observedType f annotations inst)) } := by
    simp only [Tables.visitInst, writeInferredType_result, observed, written]
  rw [after]
  clear after written observed
  have new : ∀ table : Value → Option Ty, table = t.values → ∀ value ty,
      Function.update table inst.result (some (observedType f annotations inst)) value = some ty →
        ∃ inst ∈ f.insts, inst.result = value ∧ ty = observedType f annotations inst := by
    rintro table rfl value ty found
    by_cases same : value = inst.result
    · subst same
      rw [Function.update_self] at found
      exact ⟨inst, mem, rfl, (Option.some.inj found).symm⟩
    · rw [Function.update_of_ne same] at found
      exact h.values value ty found
  generalize (t.inferInst inst.result inst.kind).2 = t' at adds ⊢
  generalize isKind : inst.kind = kind at adds
  cases adds with
  | nothing => exact ⟨new _ rfl, h.names, h.ranges, h.iters⟩
  | store => exact ⟨new _ rfl, h.names, h.ranges, h.iters⟩
  | @name _ loaded loads =>
    refine ⟨new _ rfl, fun value name found ↦ ?_, h.ranges, h.iters⟩
    dsimp only at found
    by_cases same : value = inst.result
    · subst same
      rw [Function.update_self] at found
      exact ⟨inst, mem, rfl, by rw [isKind, loads, found]⟩
    · rw [Function.update_of_ne same] at found
      exact h.names value name found
  | @range callee args isRange =>
    refine ⟨new _ rfl, h.names, fun value inside ↦ ?_, h.iters⟩
    rcases Finset.mem_insert.mp inside with rfl | old
    · exact ⟨inst, mem, rfl, callee, args, isKind, here ▸ isRange⟩
    · exact h.ranges value old
  | @iter iterable isRange =>
    refine ⟨new _ rfl, h.names, h.ranges, fun value inside ↦ ?_⟩
    rcases Finset.mem_insert.mp inside with rfl | old
    · exact ⟨inst, mem, rfl, iterable, isKind, here ▸ isRange⟩
    · exact h.iters value old

theorem sourced_inferInsts (raw : Raw f) (before after : List Inst) (split : f.insts = before ++ after) :
    Sourced f annotations (inferInsts before (startTables f annotations)).2 := by
  induction before using List.reverseRecOn generalizing after with
  | nil => exact ⟨nofun, nofun, by simp [inferInsts, startTables], by simp [inferInsts, startTables]⟩
  | append_singleton before inst ih =>
    rw [List.append_assoc, List.singleton_append] at split
    rw [inferInsts_append]
    refine (ih (inst :: after) split).visitInst raw (by simp [split]) ?_
    rw [tablesBefore, raw.takeWhile_eq split]

theorem sourced_tablesBefore (raw : Raw f) (value : Value) :
    Sourced f annotations (tablesBefore f annotations value) :=
  sourced_inferInsts raw _ _ List.takeWhile_append_dropWhile.symm

/-- The type of a load covers the types of the earlier stores to its local. -/
theorem observedType_load (raw : Raw f) {p : Ty → Prop} (upward : Upward p) (object : p .object)
    {load store : Inst} {slot : LocalId} (isLoad : load.kind = .loadLocal slot)
    (isStore : store.kind = .storeLocal slot value)
    (earlier : store ∈ f.insts.takeWhile (·.result ≠ load.result))
    (holds : p (observedType f annotations store)) : p (observedType f annotations load) := by
  obtain ⟨before, after, split⟩ := List.append_of_mem earlier
  have whole : f.insts =
      before ++ store :: (after ++ f.insts.dropWhile (·.result ≠ load.result)) :=
    calc
      _ = f.insts.takeWhile (·.result ≠ load.result) ++
          f.insts.dropWhile (·.result ≠ load.result) := List.takeWhile_append_dropWhile.symm
      _ = _ := by rw [split, List.append_assoc, List.cons_append]
  have stored : observedType f annotations store =
      (inferInsts before (startTables f annotations)).2.valueType value := by
    rw [observedType, tablesBefore, raw.takeWhile_eq whole, isStore]
    rfl
  have loaded : observedType f annotations load =
      (tablesBefore f annotations load.result).localType slot := by
    rw [observedType, isLoad]
    rfl
  rw [stored] at holds
  rw [loaded, tablesBefore, split, inferInsts_append]
  exact inferInsts_localType upward after (visitInst_stored upward object isStore holds)

theorem inferBlocks_insts (blocks : List Block) (t : Tables) :
    (inferBlocks blocks t).1.flatMap (·.insts) = (inferInsts (blocks.flatMap (·.insts)) t).1 ∧
      (inferBlocks blocks t).2 = (inferInsts (blocks.flatMap (·.insts)) t).2 := by
  induction blocks generalizing t with
  | nil => exact ⟨rfl, rfl⟩
  | cons block rest ih =>
    obtain ⟨insts, tables⟩ := ih (inferInsts block.insts t).2
    rw [List.flatMap_cons, inferInsts_append]
    exact ⟨congrArg ((inferInsts block.insts t).1 ++ ·) insts, tables⟩

theorem exists_of_mem_inferInsts {insts : List Inst} {t : Tables}
    (mem : typed ∈ (inferInsts insts t).1) : ∃ before inst after, insts = before ++ inst :: after ∧
      typed = ((inferInsts before t).2.visitInst inst).1 := by
  induction insts generalizing t with
  | nil => cases mem
  | cons first rest ih =>
    rcases List.mem_cons.mp mem with rfl | mem
    · exact ⟨[], first, rest, rfl, rfl⟩
    · obtain ⟨before, inst, after, rfl, rfl⟩ := ih mem
      exact ⟨first :: before, inst, after, rfl, rfl⟩

theorem exists_of_mem_writeInsts {ty : Ty} {insts written : List Inst}
    (found : writeInsts value ty insts = some written) (mem : typed ∈ written) :
    ∃ inst ∈ insts, typed = inst ∨ typed = writeInferredType inst ty := by
  induction insts generalizing written with
  | nil => cases found
  | cons first rest ih =>
    rw [writeInsts] at found
    split_ifs at found
    · cases found
      rcases List.mem_cons.mp mem with rfl | mem
      · exact ⟨first, List.mem_cons_self, .inr rfl⟩
      · exact ⟨typed, List.mem_cons_of_mem _ mem, .inl rfl⟩
    · obtain ⟨tail, inner, rfl⟩ := Option.map_eq_some_iff.mp found
      rcases List.mem_cons.mp mem with rfl | mem
      · exact ⟨typed, List.mem_cons_self, .inl rfl⟩
      · obtain ⟨inst, member, same⟩ := ih inner mem
        exact ⟨inst, List.mem_cons_of_mem _ member, same⟩

theorem exists_of_mem_writeValueType {ty : Ty} {blocks : List Block}
    (mem : typed ∈ (writeValueType value ty blocks).flatMap (·.insts)) :
    ∃ inst ∈ blocks.flatMap (·.insts), typed = inst ∨ typed = writeInferredType inst ty := by
  induction blocks with
  | nil => cases mem
  | cons block rest ih =>
    rw [writeValueType] at mem
    rw [List.flatMap_cons]
    cases found : writeInsts value ty block.insts with
    | some insts =>
      rw [found] at mem
      rcases List.mem_append.mp mem with first | later
      · obtain ⟨inst, member, same⟩ := exists_of_mem_writeInsts found first
        exact ⟨inst, List.mem_append_left _ member, same⟩
      · exact ⟨typed, List.mem_append_right _ later, .inl rfl⟩
    | none =>
      rw [found] at mem
      rcases List.mem_append.mp mem with first | later
      · exact ⟨typed, List.mem_append_left _ first, .inl rfl⟩
      · obtain ⟨inst, member, same⟩ := ih later
        exact ⟨inst, List.mem_append_right _ member, same⟩

/-- The typed instruction has a type above the observed one. -/
structure TypedAs (typed inst : Inst) (observed : Ty) : Prop where
  result : typed.result = inst.result
  above : ∀ p, Upward p → p observed → p typed.inferredType

theorem TypedAs.write {observed : Ty} (h : TypedAs typed inst observed) (ty : Ty) :
    TypedAs (writeInferredType typed ty) inst observed := by
  refine ⟨(writeInferredType_result typed ty).trans h.result, fun p upward holds ↦ ?_⟩
  have above := h.above p upward holds
  by_cases bottom : ty = .bottom
  · rwa [writeInferredType, if_pos bottom]
  · rw [writeInferredType, if_neg bottom]
    exact upward _ _ (.inl above)

/-- Every instruction of the typed function is one of the function with its observed type, or with one
above it where the value is returned. -/
theorem exists_typedAs (raw : Raw f) (mem : typed ∈ (inferFunctionTypes f annotations).insts) :
    ∃ inst ∈ f.insts, TypedAs typed inst (observedType f annotations inst) := by
  have first : ∀ typed ∈ (inferBlocks f.blocks (startTables f annotations)).1.flatMap (·.insts),
      ∃ inst ∈ f.insts, TypedAs typed inst (observedType f annotations inst) := by
    intro typed mem
    rw [(inferBlocks_insts _ _).1] at mem
    obtain ⟨before, inst, after, split, rfl⟩ := exists_of_mem_inferInsts mem
    have member : inst ∈ f.insts := by
      rw [Function.insts, split]
      simp
    refine ⟨inst, member, writeInferredType_result _ _, fun p _ holds ↦ ?_⟩
    have here : (inferInsts before (startTables f annotations)).2 =
        tablesBefore f annotations inst.result := by
      rw [tablesBefore, raw.takeWhile_eq split]
    have same : ((inferInsts before (startTables f annotations)).2.visitInst inst).1.inferredType =
        observedType f annotations inst := by
      rw [here]
      exact writeInferredType_fresh (raw.fresh inst member) _
    rwa [same]
  rw [inferFunctionTypes] at mem
  cases returned : annotations.bind FunctionAnnotations.returnType with
  | none =>
    rw [returned] at mem
    exact first typed mem
  | some returnType =>
    rw [returned] at mem
    dsimp only [Function.insts] at mem
    generalize (inferBlocks f.blocks (startTables f annotations)).1 = blocks at first mem
    generalize f.blocks.filterMap collectReturnValue = values at mem
    induction values generalizing blocks with
    | nil => exact first typed mem
    | cons value rest ih =>
      refine ih (writeValueType value returnType blocks) (fun other inside ↦ ?_) mem
      obtain ⟨old, member, same⟩ := exists_of_mem_writeValueType inside
      obtain ⟨inst, source, typedAs⟩ := first old member
      rcases same with rfl | rfl
      · exact ⟨inst, source, typedAs⟩
      · exact ⟨inst, source, typedAs.write returnType⟩

end Sources

end Pon.Codegen.Infer
