import Pon.Class.AttrCache

/-!
# Subclassing over a run

A new class linearizes what its bases have, so the linearizations of a run stay in step with each other.
-/

namespace Pon.Attr.World

/-- The type comes first, none comes twice, and the linearizations of the others are kept. -/
structure Linear (w : World) (t : TypeId) : Prop where
  head : (w.types t).mro.head? = some t
  nodup : (w.types t).mro.Nodup
  above : ∀ cls ∈ (w.types t).mro, cls < w.typeCount ∧ (w.types cls).mro.Sublist (w.types t).mro

/-- The worlds that legal events lead to. -/
inductive Runs (nameOf : ℕ → Name) (start : World) : World → Prop
  | refl : Runs nameOf start start
  | step {w : World} {event : Event} : Runs nameOf start w → w.Legal event →
      Runs nameOf start (w.step nameOf event)

variable {w w' start : World} {nameOf : ℕ → Name} {t : TypeId} {objectType : Option TypeId}
  {spec : ClassSpec}

theorem Linear.congr (h : w.Linear t) (inside : t < w.typeCount) (count : w.typeCount ≤ w'.typeCount)
    (mro : ∀ cls < w.typeCount, (w'.types cls).mro = (w.types cls).mro) : w'.Linear t where
  head := (mro t inside).symm ▸ h.head
  nodup := (mro t inside).symm ▸ h.nodup
  above cls mem := by
    rw [mro t inside] at mem ⊢
    rw [mro cls (h.above cls mem).1]
    exact (h.above cls mem).imp_left (·.trans_le count)

theorem mro_modify (w : World) (k : TypeId) {change : PyType → PyType}
    (same : (change (w.types k)).mro = (w.types k).mro) :
    ((w.modify k change).typeModified k).typeCount = w.typeCount ∧
      ∀ t, (((w.modify k change).typeModified k).types t).mro = (w.types t).mro := by
  rw [typeModified_eq]
  refine ⟨rfl, fun t ↦ ?_⟩
  by_cases here : t = k <;> simp [here, modify, same]

/-- Only the creation of a class makes a linearization. -/
theorem mro_step (event : Event) :
    (∃ objectType spec, event = .constructClass objectType spec) ∨
      (w.step nameOf event).typeCount = w.typeCount ∧
        ∀ t, ((w.step nameOf event).types t).mro = (w.types t).mro := by
  cases event with
  | constructClass objectType spec => exact .inl ⟨objectType, spec, rfl⟩
  | newInstance | loadAttr => exact .inr ⟨rfl, fun _ ↦ rfl⟩
  | setAttr object name value entries =>
    have changed := genericSetAttr_change (w := w) object name value entries
    simp only [World.step]
    generalize (w.genericSetAttr object name value entries).2 = next at changed ⊢
    cases changed with
    | unchanged | instance_ => exact .inr ⟨rfl, fun _ ↦ rfl⟩
    | type k dict => exact .inr (mro_modify w k (updateSlotFromDunder_same name value _).1)
  | typeSetterReturned k =>
    rw [World.step, typeModified_eq]
    exact .inr ⟨rfl, fun _ ↦ rfl⟩
  | storeOwnAttr k name value =>
    exact .inr (mro_modify w k (updateSlotFromDunder_same name value _).1)
  | installSurface k dict => exact .inr (mro_modify w k rfl)

section

variable (linear : ∀ t < w.typeCount, w.Linear t)
  (legal : w.Legal (.constructClass objectType spec))
include linear legal

theorem above_merge {order : List TypeId} (merges : Linearization.Merges
      (Class.precedenceOrders objectType ((w.baseTypes objectType spec).map w.linearized)) order)
    (cls : TypeId) (mem : cls ∈ order) : cls < w.typeCount ∧ (w.types cls).mro.Sublist order := by
  have found : ∃ base ∈ w.baseTypes objectType spec, cls ∈ (w.types base).mro := by
    obtain ⟨seq, isSeq, mem⟩ := merges.mem_iff.mp mem
    simp only [Class.precedenceOrders, List.map_map, List.mem_append, List.mem_map,
      List.mem_singleton] at isSeq
    rcases isSeq with ⟨base, isBase, rfl⟩ | rfl
    · exact ⟨base, isBase, mem⟩
    · obtain ⟨base, isBase, rfl⟩ := List.mem_map.mp mem
      exact ⟨base, isBase, List.mem_of_head? (linear base (legal.2 base isBase)).head⟩
  obtain ⟨base, isBase, mem⟩ := found
  have kept : (w.types base).mro.Sublist order := merges.sublist
    (List.mem_append_left _ (List.mem_map_of_mem (List.mem_map_of_mem isBase)))
  exact ((linear base (legal.2 base isBase)).above cls mem).imp_right (·.trans kept)

theorem linear_constructClass :
    ∀ t < (w.constructClass objectType spec).typeCount, (w.constructClass objectType spec).Linear t := by
  cases computed : Class.computeC3Mro objectType (some w.typeCount)
      ((w.baseTypes objectType spec).map fun base ↦ some (w.linearized base)) with
  | error message =>
    rw [constructClass_error computed]
    exact linear
  | ok mro =>
    obtain ⟨subclasses, created, -⟩ := constructClass_ok computed
    rw [created]
    have old (cls : TypeId) (inside : cls < w.typeCount) :
        Function.update w.types w.typeCount (spec.pyType mro) cls = w.types cls :=
      Function.update_of_ne inside.ne _ _
    intro t inside
    rcases Nat.lt_succ_iff_lt_or_eq.mp inside with inside | rfl
    · exact (linear t inside).congr inside (Nat.le_succ _) fun cls inside ↦
        congrArg PyType.mro (old cls inside)
    have bases : ((w.baseTypes objectType spec).map fun base ↦ some (w.linearized base)) =
        ((w.baseTypes objectType spec).map w.linearized).map some := by simp
    rw [bases, Class.computeC3Mro_some] at computed
    obtain ⟨order, rfl, merges⟩ := Class.mergeLoop_ok computed
    have above := above_merge linear legal merges
    constructor <;> simp only [Function.update_self, ClassSpec.pyType]
    · rfl
    · exact List.nodup_cons.mpr ⟨fun mem ↦ (above _ mem).1.false, merges.nodup⟩
    · intro cls mem
      rcases List.mem_cons.mp mem with rfl | mem
      · simp
      · have kept := above cls mem
        rw [← old cls kept.1] at kept
        exact kept.imp (·.trans (Nat.lt_succ_self _)) (·.cons _)

end

/-- In every world of a run the linearization of a type begins with it, has no type twice and keeps those
of the types in it, so subclassing is transitive and antisymmetric. -/
theorem subclassing_partial_order (linear : ∀ t < start.typeCount, start.Linear t)
    (runs : Runs nameOf start w) :
    ∀ t < w.typeCount, w.Linear t ∧ ∀ s ∈ (w.types t).mro,
      (w.types s).mro ⊆ (w.types t).mro ∧ (t ∈ (w.types s).mro → s = t) := by
  have all : ∀ t < w.typeCount, w.Linear t := by
    induction runs with
    | refl => exact linear
    | @step w event _ legal ih =>
      rcases @mro_step w nameOf event with ⟨objectType, spec, rfl⟩ | ⟨count, mro⟩
      · exact linear_constructClass ih legal
      · intro t inside
        rw [count] at inside
        exact (ih t inside).congr inside count.ge fun cls _ ↦ mro cls
  refine fun t inside ↦ ⟨all t inside, fun s mem ↦ ?_⟩
  obtain ⟨within, sublist⟩ := (all t inside).above s mem
  refine ⟨sublist.subset, fun mem ↦ ?_⟩
  have same := sublist.antisymm ((all s within).above t mem).2
  exact Option.some.inj ((all s within).head.symm.trans (same ▸ (all t inside).head))

/-- A class over `object` and two classes over it. -/
def twoSubclasses : World :=
  [[0], [2], [2]].foldl (fun w bases ↦
    w.step (fun _ ↦ "x") (.constructClass none { plainClass "C" [] with bases })) bareWorld

/-- A class over both. -/
def diamond : Event := .constructClass none { plainClass "D" [] with bases := [3, 4] }

theorem subclassing_partial_order_diamond :
    ((twoSubclasses.step (fun _ ↦ "x") diamond).types 5).mro = [5, 3, 4, 2, 0] ∧
      ∀ s ∈ [5, 3, 4, 2, 0], ((twoSubclasses.step (fun _ ↦ "x") diamond).types s).mro ⊆ [5, 3, 4, 2, 0] ∧
        (5 ∈ ((twoSubclasses.step (fun _ ↦ "x") diamond).types s).mro → s = 5) := by
  have runs : Runs (fun _ ↦ "x") bareWorld (twoSubclasses.step (fun _ ↦ "x") diamond) := by
    simp only [twoSubclasses, List.foldl_cons, List.foldl_nil]
    refine .step (.step (.step (.step .refl ?_) ?_) ?_) ?_ <;>
      exact ⟨by decide +kernel, by decide +kernel⟩
  have mro : ((twoSubclasses.step (fun _ ↦ "x") diamond).types 5).mro = [5, 3, 4, 2, 0] := by
    decide +kernel
  refine ⟨mro, mro ▸ (subclassing_partial_order (fun t inside ↦ ?_) runs 5 (by decide +kernel)).2⟩
  obtain rfl | rfl := Nat.le_one_iff_eq_zero_or_eq_one.mp (Nat.le_of_lt_succ inside) <;>
    exact ⟨rfl, by decide, by decide⟩

end Pon.Attr.World
