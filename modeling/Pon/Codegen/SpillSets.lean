import Pon.Codegen.RegionShape
import Pon.Codegen.Spill

/-!
# What a spill plan holds

The walk over the entry stacks ends, and unless it reports an error the stacks agree along every edge.
The set of a window holds the values that are read after it, on paths on which the end of a block also
leads to its handlers.
-/

namespace Pon.Codegen.Spill

open Ir Liveness

/-! ## Entry stacks -/

/-- The active handlers before an instruction. -/
def stackAt (insts : List Inst) (stack : List BlockId) (index : ℕ) : List BlockId :=
  (insts.take index).foldl (fun stack inst ↦ stackAfter inst.kind stack) stack

theorem stackAt_succ {insts : List Inst} {stack : List BlockId} {index : ℕ} {inst : Inst}
    (found : insts[index]? = some inst) :
    stackAt insts stack (index + 1) = stackAfter inst.kind (stackAt insts stack index) := by
  rw [stackAt, List.take_add_one, found, List.foldl_append]
  rfl

/-- The stacks agree along the edges of a block that is entered with a stack. -/
structure ClosedAt (f : Function) (entries : EntryStacks) (id : BlockId) (stack : List BlockId)
    (block : Block) : Prop where
  found : f.block? id = some block
  pushed : ∀ index inst target depth kind, block.insts[index]? = some inst →
    inst.kind = .pushExcInfo target depth kind →
    entries target = some (stackAt block.insts stack index ++ [target])
  left : ∀ successor ∈ exceptionSuccessors block.term (stackAt block.insts stack block.insts.length),
    entries successor = some (stackAt block.insts stack block.insts.length)

structure Consistent (f : Function) (entries : EntryStacks) : Prop where
  start : ∀ block ∈ f.blocks.head?, entries block.id = some []
  closed : ∀ id stack, entries id = some stack → ∃ block, ClosedAt f entries id stack block

/-- The blocks without a stack and those in the worklist, counted. -/
def pending (blocks : Finset BlockId) (walk : EntryWalk) : ℕ :=
  (blocks.filter fun id ↦ walk.entries id = none).card + walk.worklist.length

def StacksIn (blocks : Finset BlockId) (entries : EntryStacks) : Prop :=
  ∀ id stack, entries id = some stack → ∀ handler ∈ stack, handler ∈ blocks

/-- What a part of the walk does: stacks are kept, and new ones are queued. -/
structure Extends (blocks : Finset BlockId) (walk walk' : EntryWalk) : Prop where
  keeps : ∀ id stack, walk.entries id = some stack → walk'.entries id = some stack
  queued : ∀ id ∈ walk.worklist, id ∈ walk'.worklist
  fresh : ∀ id stack, walk'.entries id = some stack → walk.entries id = some stack ∨ id ∈ walk'.worklist
  pending_eq : pending blocks walk' = pending blocks walk
  inside : StacksIn blocks walk.entries → StacksIn blocks walk'.entries

theorem Extends.refl (blocks : Finset BlockId) (walk : EntryWalk) : Extends blocks walk walk where
  keeps _ _ h := h
  queued _ h := h
  fresh _ _ h := .inl h
  pending_eq := rfl
  inside h := h

theorem Extends.trans {blocks : Finset BlockId} {walk walk' walk'' : EntryWalk}
    (first : Extends blocks walk walk') (second : Extends blocks walk' walk'') :
    Extends blocks walk walk'' where
  keeps id stack h := second.keeps id stack (first.keeps id stack h)
  queued id h := second.queued id (first.queued id h)
  fresh id stack h :=
    (second.fresh id stack h).elim (fun h ↦ (first.fresh id stack h).imp_right (second.queued id)) .inr
  pending_eq := second.pending_eq.trans first.pending_eq
  inside h := second.inside (first.inside h)

theorem ClosedAt.mono {f : Function} {blocks : Finset BlockId} {walk walk' : EntryWalk} {id : BlockId}
    {stack : List BlockId} {block : Block} (closed : ClosedAt f walk.entries id stack block)
    (h : Extends blocks walk walk') : ClosedAt f walk'.entries id stack block where
  found := closed.found
  pushed index inst target depth kind found push :=
    h.keeps _ _ (closed.pushed index inst target depth kind found push)
  left successor mem := h.keeps _ _ (closed.left successor mem)

section Walk

variable {blocks : Finset BlockId} {walk walk' : EntryWalk} {stack : List BlockId}

theorem mergeExceptionEntryStack_spec {id : BlockId} (mem : id ∈ blocks)
    (sub : ∀ handler ∈ stack, handler ∈ blocks)
    (merged : mergeExceptionEntryStack walk id stack = .ok walk') :
    Extends blocks walk walk' ∧ walk'.entries id = some stack := by
  unfold mergeExceptionEntryStack at merged
  cases present : walk.entries id with
  | some existing =>
    rw [present] at merged
    dsimp only at merged
    split_ifs at merged with same
    obtain rfl := Except.ok.inj merged
    exact ⟨.refl _ _, same ▸ present⟩
  | none =>
    rw [present] at merged
    obtain rfl := Except.ok.inj merged
    refine ⟨⟨fun other stack' h ↦ ?_, fun other queued ↦ List.mem_append_left _ queued,
      fun other stack' h ↦ ?_, ?_, fun inside other stack' h ↦ ?_⟩, Function.update_self ..⟩
    · have differs : other ≠ id := fun same ↦ by
        rw [same, present] at h
        cases h
      dsimp only
      rwa [Function.update_of_ne differs]
    · rcases eq_or_ne other id with rfl | differs
      · exact .inr (List.mem_append_right _ List.mem_cons_self)
      · dsimp only at h
        rw [Function.update_of_ne differs] at h
        exact .inl h
    · have left : (blocks.filter fun other ↦ walk.entries other = none) =
          insert id (blocks.filter fun other ↦
            Function.update walk.entries id (some stack) other = none) := by
        ext other
        rcases eq_or_ne other id with rfl | differs
        · simp [mem, present]
        · simp [differs]
      have outside : id ∉ blocks.filter fun other ↦
          Function.update walk.entries id (some stack) other = none := by
        simp
      rw [pending, pending, left, Finset.card_insert_of_notMem outside, List.length_append,
        List.length_singleton, add_assoc, add_comm 1]
    · dsimp only at h
      rcases eq_or_ne other id with rfl | differs
      · rw [Function.update_self] at h
        obtain rfl := Option.some.inj h
        exact sub
      · rw [Function.update_of_ne differs] at h
        exact inside other stack' h

/-- The handlers after an instruction were active before it, or it pushes them. -/
theorem mem_of_mem_stackAfter {kind : InstKind Value} {handler : BlockId}
    (mem : handler ∈ stackAfter kind stack) :
    handler ∈ stack ∨ ∃ depth number, kind = .pushExcInfo handler depth number := by
  unfold stackAfter at mem
  split at mem
  · rcases List.mem_append.mp mem with old | new
    · exact .inl old
    · obtain rfl := List.mem_singleton.mp new
      exact .inr ⟨_, _, rfl⟩
  · exact .inl (List.mem_of_mem_dropLast mem)
  · exact .inl mem

/-- The block pushes its handlers in a set. -/
def PushesIn (blocks : Finset BlockId) (insts : List Inst) : Prop :=
  ∀ inst ∈ insts, ∀ target depth kind, inst.kind = .pushExcInfo target depth kind → target ∈ blocks

section

variable {rest : List Inst} {inst : Inst} (pushes : PushesIn blocks (inst :: rest))
  (sub : ∀ handler ∈ stack, handler ∈ blocks)
include pushes sub

theorem stackAfter_subset :
    ∀ handler ∈ stackAfter inst.kind stack, handler ∈ blocks := by
  intro handler mem
  rcases mem_of_mem_stackAfter mem with old | ⟨depth, number, push⟩
  · exact sub handler old
  · exact pushes inst List.mem_cons_self handler depth number push

theorem mergePushed_spec

    (merged : mergePushed walk inst.kind stack = .ok walk') :
    Extends blocks walk walk' ∧ ∀ target depth kind, inst.kind = .pushExcInfo target depth kind →
      walk'.entries target = some (stack ++ [target]) := by
  unfold mergePushed at merged
  split at merged
  case h_1 target depth number push =>
    have after := stackAfter_subset pushes sub
    rw [push] at after
    have member := pushes inst List.mem_cons_self target depth number push
    obtain ⟨extend, entry⟩ := mergeExceptionEntryStack_spec member after merged
    refine ⟨extend, fun target' _ _ push' ↦ ?_⟩
    rw [push] at push'
    obtain ⟨rfl, -, -⟩ := InstKind.pushExcInfo.inj push'
    exact entry
  case h_2 other =>
    obtain rfl := Except.ok.inj merged
    exact ⟨.refl _ _, fun target depth number push ↦ absurd push (other target depth number)⟩

end

theorem scanInsts_spec {insts : List Inst} {stack' : List BlockId}
    (pushes : PushesIn blocks insts) (sub : ∀ handler ∈ stack, handler ∈ blocks)
    (scanned : scanInsts insts stack walk = .ok (stack', walk')) :
    stack' = stackAt insts stack insts.length ∧ Extends blocks walk walk' ∧
      (∀ handler ∈ stack', handler ∈ blocks) ∧
      ∀ index inst target depth kind, insts[index]? = some inst →
        inst.kind = .pushExcInfo target depth kind →
        walk'.entries target = some (stackAt insts stack index ++ [target]) := by
  induction insts generalizing stack walk with
  | nil =>
    obtain ⟨rfl, rfl⟩ := Prod.mk.inj (Except.ok.inj scanned)
    exact ⟨rfl, .refl _ _, sub, fun index inst _ _ _ found ↦ absurd found (by simp)⟩
  | cons inst rest ih =>
    cases merged : mergePushed walk inst.kind stack with
    | error message =>
      simp only [scanInsts, merged, bind, Except.bind] at scanned
      cases scanned
    | ok between =>
      simp only [scanInsts, merged, bind, Except.bind] at scanned
      obtain ⟨first, push⟩ := mergePushed_spec pushes sub merged
      obtain ⟨same, second, sub', pushed⟩ := ih (fun inst mem ↦ pushes inst (List.mem_cons_of_mem _ mem))
        (stackAfter_subset pushes sub) scanned
      refine ⟨same, first.trans second, sub', fun index inst' target depth kind found isPush ↦ ?_⟩
      cases index with
      | zero =>
        obtain rfl := Option.some.inj found
        exact second.keeps _ _ (push target depth kind isPush)
      | succ index => exact pushed index inst' target depth kind found isPush

theorem mergeSuccessors_spec {successors : List BlockId}
    (mem : ∀ successor ∈ successors, successor ∈ blocks)
    (sub : ∀ handler ∈ stack, handler ∈ blocks)
    (merged : mergeSuccessors stack successors walk = .ok walk') :
    Extends blocks walk walk' ∧ ∀ successor ∈ successors, walk'.entries successor = some stack := by
  induction successors generalizing walk with
  | nil =>
    obtain rfl := Except.ok.inj merged
    exact ⟨.refl _ _, nofun⟩
  | cons successor rest ih =>
    obtain ⟨member, mem⟩ := List.forall_mem_cons.mp mem
    cases first : mergeExceptionEntryStack walk successor stack with
    | error message =>
      simp only [mergeSuccessors, first, bind, Except.bind] at merged
      cases merged
    | ok between =>
      simp only [mergeSuccessors, first, bind, Except.bind] at merged
      obtain ⟨extend, entry⟩ := mergeExceptionEntryStack_spec member sub first
      obtain ⟨extend', entries⟩ := ih mem merged
      exact ⟨extend.trans extend', List.forall_mem_cons.mpr ⟨extend'.keeps _ _ entry, entries⟩⟩

end Walk

/-- The blocks that a function has or names. -/
def mentioned (f : Function) : Finset BlockId :=
  (f.blocks.flatMap fun block ↦ block.id :: (successors block.term ++ pushedTargets block)).toFinset

section Loop

variable {f : Function} {block : Block}

variable {id : BlockId}

theorem mem_mentioned (mem : block ∈ f.blocks)
    (named : id = block.id ∨ id ∈ successors block.term ∨ id ∈ pushedTargets block) :
    id ∈ mentioned f := by
  refine List.mem_toFinset.mpr (List.mem_flatMap.mpr ⟨block, mem, ?_⟩)
  rw [List.mem_cons, List.mem_append]
  exact named

theorem mem_pushedTargets {inst : Inst} (mem : inst ∈ block.insts) {target : BlockId}
    {depth kind : ℕ} (push : inst.kind = .pushExcInfo target depth kind) :
    target ∈ pushedTargets block := by
  refine List.mem_filterMap.mpr ⟨inst, mem, ?_⟩
  rw [push]

theorem mem_exceptionSuccessors {term : Terminator Value} {stack : List BlockId}
    (mem : id ∈ exceptionSuccessors term stack) : id ∈ successors term ∨ id ∈ stack := by
  unfold exceptionSuccessors at mem
  split at mem
  · exact .inr (List.mem_of_getLast? (Option.mem_toList.mp mem))
  · exact .inl mem

theorem successors_subset (term : Terminator Value) (stack : List BlockId) :
    ∀ id ∈ successors term, id ∈ exceptionSuccessors term stack := by
  intro id mem
  cases term with
  | raiseTerm => cases mem
  | _ => exact mem

variable {walk : EntryWalk}

theorem visitBlock_spec {walk' : EntryWalk} (inside : StacksIn (mentioned f) walk.entries)
    (visited : visitBlock f id walk = .ok walk') :
    Extends (mentioned f) walk walk' ∧
      ∃ block, ClosedAt f walk'.entries id ((walk.entries id).getD []) block := by
  unfold visitBlock at visited
  cases found : f.block? id with
  | none =>
    rw [found] at visited
    cases visited
  | some block =>
    have member : block ∈ f.blocks := List.mem_of_find?_eq_some found
    have pushes : PushesIn (mentioned f) block.insts := fun inst mem target depth kind push ↦
      mem_mentioned member (.inr (.inr (mem_pushedTargets mem push)))
    have sub : ∀ handler ∈ (walk.entries id).getD [], handler ∈ mentioned f := by
      cases entry : walk.entries id with
      | none => exact nofun
      | some stack => exact inside id stack entry
    rw [found] at visited
    dsimp only at visited
    cases scanned : scanInsts block.insts ((walk.entries id).getD []) walk with
    | error message =>
      rw [scanned] at visited
      cases visited
    | ok scan =>
      obtain ⟨stack, between⟩ := scan
      rw [scanned] at visited
      obtain ⟨rfl, first, sub', pushed⟩ := scanInsts_spec pushes sub scanned
      have known : ∀ successor ∈ exceptionSuccessors block.term
          (stackAt block.insts ((walk.entries id).getD []) block.insts.length),
          successor ∈ mentioned f := fun successor mem ↦
        (mem_exceptionSuccessors mem).elim (fun mem ↦ mem_mentioned member (.inr (.inl mem)))
          (sub' successor)
      obtain ⟨second, left⟩ := mergeSuccessors_spec known sub' visited
      refine ⟨first.trans second, block, found, fun index inst target depth kind at_ push ↦ ?_, left⟩
      exact second.keeps _ _ (pushed index inst target depth kind at_ push)

/-- In the loop, the blocks with a stack are closed or wait in the worklist. -/
structure WalkInv (f : Function) (walk : EntryWalk) : Prop where
  start : ∀ block ∈ f.blocks.head?, walk.entries block.id = some []
  closed : ∀ id stack, walk.entries id = some stack →
    id ∈ walk.worklist ∨ ∃ block, ClosedAt f walk.entries id stack block
  inside : StacksIn (mentioned f) walk.entries

theorem WalkInv.visit {entries : EntryStacks} {rest : List BlockId}
    (inv : WalkInv f ⟨entries, id :: rest⟩) (extend : Extends (mentioned f) ⟨entries, rest⟩ walk)
    (closed : ∃ block, ClosedAt f walk.entries id ((entries id).getD []) block) :
    WalkInv f walk where
  start block first := extend.keeps _ _ (inv.start block first)
  inside := extend.inside inv.inside
  closed other stack entry := by
    rcases extend.fresh other stack entry with old | queued
    · rcases inv.closed other stack old with waiting | ⟨block, done⟩
      · rcases List.mem_cons.mp waiting with rfl | waiting
        · have same : (entries other).getD [] = stack := by
            rw [show entries other = some stack from old, Option.getD_some]
          rw [same] at closed
          exact .inr closed
        · exact .inl (extend.queued other waiting)
      · exact .inr ⟨block, @ClosedAt.mono f _ ⟨entries, rest⟩ _ _ _ _ done extend⟩
    · exact .inl queued

/-- The loop ends, with an error or with stacks that agree. -/
theorem walkEntries_spec {fuel : ℕ} (inv : WalkInv f walk)
    (enough : pending (mentioned f) walk < fuel) :
    (∃ message, walkEntries f fuel walk = some (.error message)) ∨
      ∃ entries, walkEntries f fuel walk = some (.ok entries) ∧ Consistent f entries := by
  induction fuel generalizing walk with
  | zero => cases enough
  | succ fuel ih =>
    obtain ⟨entries, worklist⟩ := walk
    cases worklist with
    | nil =>
      refine .inr ⟨entries, rfl, inv.start, fun id stack entry ↦ ?_⟩
      exact (inv.closed id stack entry).resolve_left nofun
    | cons id rest =>
      cases visited : visitBlock f id ⟨entries, rest⟩ with
      | error message => exact .inl ⟨message, by simp only [walkEntries, visited]⟩
      | ok walk =>
        obtain ⟨extend, closed⟩ := @visitBlock_spec f id ⟨entries, rest⟩ walk inv.inside visited
        have fewer : pending (mentioned f) walk < fuel := by
          have popped := extend.pending_eq
          simp only [pending, List.length_cons] at enough popped ⊢
          omega
        simp only [walkEntries, visited]
        exact ih (inv.visit extend closed) fewer

theorem blockExceptionEntryStacks_spec (f : Function) : ∃ bound, ∀ fuel, bound ≤ fuel →
    (∃ message, blockExceptionEntryStacks f fuel = some (.error message)) ∨
      ∃ entries, blockExceptionEntryStacks f fuel = some (.ok entries) ∧ Consistent f entries := by
  cases blocks : f.blocks with
  | nil =>
    refine ⟨0, fun fuel _ ↦ .inr ⟨fun _ ↦ none, by rw [blockExceptionEntryStacks, blocks], ?_, nofun⟩⟩
    rw [blocks]
    exact nofun
  | cons entry rest =>
    have inv : WalkInv f ⟨Function.update (fun _ ↦ none) entry.id (some []), [entry.id]⟩ := by
      have only : ∀ (id : BlockId) (stack : List BlockId),
          Function.update (fun _ : BlockId ↦ none) entry.id (some []) id = some stack →
            id = entry.id ∧ stack = [] := by
        intro id stack h
        rcases eq_or_ne id entry.id with rfl | other
        · rw [Function.update_self] at h
          exact ⟨rfl, (Option.some.inj h).symm⟩
        · rw [Function.update_of_ne other] at h
          cases h
      refine ⟨fun block first ↦ ?_, fun id stack h ↦ .inl ?_, fun id stack h ↦ ?_⟩
      · rw [blocks] at first
        obtain rfl := Option.some.inj first
        dsimp only
        rw [Function.update_self]
      · exact List.mem_singleton.mpr (only id stack h).1
      · rw [(only id stack h).2]
        exact nofun
    refine ⟨pending (mentioned f) ⟨Function.update (fun _ ↦ none) entry.id (some []), [entry.id]⟩ + 1,
      fun fuel enough ↦ ?_⟩
    simp only [blockExceptionEntryStacks, blocks]
    exact walkEntries_spec inv (Nat.lt_of_succ_le enough)

end Loop

/-! ## Reads after a point -/

/-- The instructions whose operands the operand lists leave out. -/
def isUnlisted : InstKind Value → Bool
  | .functionSetAnnotate .. | .makeTypeAlias .. => true
  | _ => false

variable {value : Value}

theorem mem_instOperands {kind : InstKind Value} :
    value ∈ instOperands kind ↔ isUnlisted kind = false ∧ value ∈ kind.operands := by
  cases unlisted : isUnlisted kind with
  | true =>
    have none : instOperands kind = [] := by
      cases kind <;> first | rfl | cases unlisted
    simp [none]
  | false =>
    have all : instOperands kind = kind.operands := by
      refine instOperands_eq ?_ ?_
      · rintro function annotate rfl
        cases unlisted
      · rintro name thunk rfl
        cases unlisted
    simp [all]

/-- A value is read from a point of a block on, before it is defined again, by an instruction other than
those two or by a terminator. The end of a block also leads to its handlers. -/
inductive ReadFrom (f : Function) (entries : EntryStacks) : BlockId → ℕ → Value → Prop where
  | inst {id index block inst value} : f.block? id = some block →
    block.insts[index]? = some inst → isUnlisted inst.kind = false → value ∈ inst.kind.operands →
    ReadFrom f entries id index value
  | term {id block value} : f.block? id = some block → value ∈ block.term.operands →
    ReadFrom f entries id block.insts.length value
  | next {id index block inst value} : f.block? id = some block →
    block.insts[index]? = some inst → inst.result ≠ value →
    ReadFrom f entries id (index + 1) value → ReadFrom f entries id index value
  | edge {id target block value} : f.block? id = some block →
    target ∈ successors block.term ∨ target ∈ handlerTargets entries block →
    ReadFrom f entries target 0 value → ReadFrom f entries id block.insts.length value

/-- A value is read in the instructions before they define it. -/
def ReadFirst (value : Value) : List Inst → Prop
  | [] => False
  | inst :: rest => value ∈ instOperands inst.kind ∨ inst.result ≠ value ∧ ReadFirst value rest

/-- The instructions do not define a value. -/
def Passes (value : Value) (insts : List Inst) : Prop := ∀ inst ∈ insts, inst.result ≠ value

theorem passes_nil (value : Value) : Passes value [] := fun _ mem ↦ absurd mem List.not_mem_nil

theorem mem_walkBack {live : Finset Value} {insts : List Inst} :
    value ∈ (walkBack live insts).1 ↔ ReadFirst value insts ∨ Passes value insts ∧ value ∈ live := by
  induction insts with
  | nil => simp [walkBack, ReadFirst, Passes]
  | cons inst rest ih =>
    simp only [walkBack, Finset.mem_union, Finset.mem_erase, ih, List.mem_toFinset, ReadFirst, Passes,
      List.forall_mem_cons, ne_comm (a := value)]
    tauto

theorem getElem?_walkBack (live : Finset Value) (insts : List Inst) (index : ℕ) :
    (walkBack live insts).2[index]? = insts[index]?.map fun inst ↦
      if instSpillPoint inst.kind
      then some (sorted ((walkBack live (insts.drop (index + 1))).1.erase inst.result)) else none := by
  induction insts generalizing index with
  | nil => rfl
  | cons inst rest ih =>
    cases index with
    | zero => rfl
    | succ index => exact ih index

theorem mem_foldl_scan (insts : List Inst) (gen kill : Finset Value) (value : Value) :
    let sets := insts.foldl (fun sets inst ↦
      (sets.1 ∪ ((instOperands inst.kind).toFinset \ sets.2), insert inst.result sets.2)) (gen, kill)
    (value ∈ sets.1 ↔ value ∈ gen ∨ value ∉ kill ∧ ReadFirst value insts) ∧
      (value ∈ sets.2 ↔ value ∈ kill ∨ ¬Passes value insts) := by
  induction insts generalizing gen kill with
  | nil => simp [ReadFirst, Passes]
  | cons inst rest ih =>
    obtain ⟨gens, kills⟩ := ih (gen ∪ ((instOperands inst.kind).toFinset \ kill)) (insert inst.result kill)
    dsimp only [List.foldl_cons] at gens kills ⊢
    rw [gens, kills]
    simp only [Finset.mem_union, Finset.mem_sdiff, List.mem_toFinset, Finset.mem_insert, ReadFirst,
      Passes, List.forall_mem_cons, eq_comm (a := value)]
    tauto

theorem mem_blockGen {block : Block} : value ∈ blockGen block ↔
    ReadFirst value block.insts ∨ Passes value block.insts ∧ value ∈ block.term.operands := by
  obtain ⟨gens, kills⟩ := mem_foldl_scan block.insts ∅ ∅ value
  simp only [Finset.notMem_empty, not_false_eq_true, true_and, false_or] at gens kills
  rw [blockGen, Finset.mem_union, Finset.mem_sdiff, List.mem_toFinset, scanReads, gens, kills,
    terminatorOperands_eq, not_not, and_comm (a := value ∈ block.term.operands)]

theorem mem_blockKill {block : Block} : value ∈ blockKill block ↔ ¬Passes value block.insts := by
  have kills := (mem_foldl_scan block.insts ∅ ∅ value).2
  simpa [blockKill, scanReads] using kills

section Points

variable {f : Function} {entries : EntryStacks} {id : BlockId} {block : Block} {index : ℕ}
  {value : Value}

theorem readFrom_of_readFirst (found : f.block? id = some block)
    (read : ReadFirst value (block.insts.drop index)) : ReadFrom f entries id index value := by
  induction rest : block.insts.drop index generalizing index with
  | nil =>
    rw [rest] at read
    exact read.elim
  | cons inst insts ih =>
    have at_ : block.insts[index]? = some inst := by rw [← List.head?_drop, rest, List.head?_cons]
    have later : block.insts.drop (index + 1) = insts := by
      rw [← List.tail_drop, rest, List.tail_cons]
    rw [rest] at read
    rcases read with here | ⟨kept, there⟩
    · obtain ⟨listed, mem⟩ := mem_instOperands.mp here
      exact .inst found at_ listed mem
    · exact .next found at_ kept (ih (later ▸ there) later)

theorem readFrom_of_passes (found : f.block? id = some block) (inside : index ≤ block.insts.length)
    (passes : Passes value (block.insts.drop index))
    (atEnd : ReadFrom f entries id block.insts.length value) : ReadFrom f entries id index value := by
  induction rest : block.insts.drop index generalizing index with
  | nil =>
    have same : index = block.insts.length := inside.antisymm (List.drop_eq_nil_iff.mp rest)
    rwa [same]
  | cons inst insts ih =>
    have at_ : block.insts[index]? = some inst := by rw [← List.head?_drop, rest, List.head?_cons]
    have later : block.insts.drop (index + 1) = insts := by
      rw [← List.tail_drop, rest, List.tail_cons]
    rw [rest] at passes
    obtain ⟨kept, passes⟩ := List.forall_mem_cons.mp passes
    have more : index < block.insts.length := (List.getElem?_eq_some_iff.mp at_).1
    exact .next found at_ kept (ih more (later ▸ passes) later)

theorem mem_blockEdges {target : BlockId} : target ∈ blockEdges entries block ↔
    target ∈ successors block.term ∨ target ∈ handlerTargets entries block :=
  List.mem_append

section

variable (found : f.block? id = some block)
include found

theorem mem_nodes : id ∈ (flowGraph f entries).nodes := by
  have same : block.id = id := by simpa using List.find?_some found
  exact List.mem_map.mpr ⟨block, List.mem_of_find?_eq_some found, same⟩

theorem flowGraph_gen :
    (flowGraph f entries).gen id = blockGen block := by
  simp only [flowGraph, found, Option.elim_some]

theorem flowGraph_kill :
    (flowGraph f entries).kill id = blockKill block := by
  simp only [flowGraph, found, Option.elim_some]

theorem flowGraph_succ :
    (flowGraph f entries).succ id = blockEdges entries block := by
  simp only [flowGraph, found, Option.elim_some]

end

/-- A node of the graph is a block. -/
theorem exists_block (node : id ∈ (flowGraph f entries).nodes) : ∃ block, f.block? id = some block := by
  obtain ⟨block, mem, same⟩ := List.mem_map.mp node
  refine Option.isSome_iff_exists.mp (List.find?_isSome.mpr ⟨block, mem, ?_⟩)
  rw [same, beq_self_eq_true]

theorem readFrom_of_live (live : (flowGraph f entries).Live id value) :
    ReadFrom f entries id 0 value := by
  induction live with
  | read node read =>
    obtain ⟨block, found⟩ := exists_block node
    rw [flowGraph_gen found] at read
    rcases mem_blockGen.mp read with here | ⟨passes, there⟩
    · exact readFrom_of_readFirst found here
    · exact readFrom_of_passes found (Nat.zero_le _) passes (.term found there)
  | pass node kept edge _ ih =>
    obtain ⟨block, found⟩ := exists_block node
    rw [flowGraph_kill found, mem_blockKill, not_not] at kept
    rw [flowGraph_succ found] at edge
    exact readFrom_of_passes found (Nat.zero_le _) kept (.edge found (mem_blockEdges.mp edge) ih)

/-- A value is read in the instructions of a block, or beyond them. -/
def ReadInRest (f : Function) (entries : EntryStacks) (block : Block) (index : ℕ) (value : Value) :
    Prop :=
  ReadFirst value (block.insts.drop index) ∨ Passes value (block.insts.drop index) ∧
    (value ∈ block.term.operands ∨
      ∃ target ∈ blockEdges entries block, (flowGraph f entries).Live target value)

theorem ReadInRest.live (read : ReadInRest f entries block 0 value)
    (found : f.block? id = some block) : (flowGraph f entries).Live id value := by
  have node : id ∈ (flowGraph f entries).nodes := mem_nodes found
  rw [ReadInRest, List.drop_zero] at read
  rcases read with here | ⟨passes, there | ⟨target, edge, live⟩⟩
  · refine .read node ?_
    rw [flowGraph_gen found]
    exact mem_blockGen.mpr (.inl here)
  · refine .read node ?_
    rw [flowGraph_gen found]
    exact mem_blockGen.mpr (.inr ⟨passes, there⟩)
  · refine .pass node ?_ (m := target) ?_ live
    · rwa [flowGraph_kill found, mem_blockKill, not_not]
    · rwa [flowGraph_succ found]

theorem ReadFrom.readInRest (read : ReadFrom f entries id index value) :
    ∃ block, f.block? id = some block ∧ ReadInRest f entries block index value := by
  induction read with
  | inst found at_ listed mem =>
    refine ⟨_, found, .inl ?_⟩
    obtain ⟨inside, rfl⟩ := List.getElem?_eq_some_iff.mp at_
    rw [List.drop_eq_getElem_cons inside]
    exact .inl (mem_instOperands.mpr ⟨listed, mem⟩)
  | @term id block value found mem =>
    refine ⟨block, found, .inr ⟨?_, .inl mem⟩⟩
    rw [List.drop_length]
    exact passes_nil value
  | next found at_ kept _ ih =>
    obtain ⟨block, found', rest⟩ := ih
    obtain rfl := Option.some.inj (found.symm.trans found')
    obtain ⟨inside, rfl⟩ := List.getElem?_eq_some_iff.mp at_
    refine ⟨_, found, ?_⟩
    rw [ReadInRest, List.drop_eq_getElem_cons inside]
    exact rest.imp (fun there ↦ .inr ⟨kept, there⟩)
      (And.imp_left fun passes ↦ List.forall_mem_cons.mpr ⟨kept, passes⟩)
  | @edge id target block value found edge _ ih =>
    obtain ⟨next, found', rest⟩ := ih
    refine ⟨block, found, .inr ⟨?_, .inr ⟨target, mem_blockEdges.mpr edge, rest.live found'⟩⟩⟩
    rw [List.drop_length]
    exact passes_nil value

/-- The live values at the entry of a block are those that are read from there on. -/
theorem live_iff : (flowGraph f entries).Live id value ↔ ReadFrom f entries id 0 value := by
  refine ⟨readFrom_of_live, fun read ↦ ?_⟩
  obtain ⟨block, found, rest⟩ := read.readInRest
  exact rest.live found

theorem ReadInRest.readFrom (read : ReadInRest f entries block index value)
    (found : f.block? id = some block) (inside : index ≤ block.insts.length) :
    ReadFrom f entries id index value := by
  rcases read with here | ⟨passes, there | ⟨target, edge, live⟩⟩
  · exact readFrom_of_readFirst found here
  · exact readFrom_of_passes found inside passes (.term found there)
  · exact readFrom_of_passes found inside passes
      (.edge found (mem_blockEdges.mp edge) (readFrom_of_live live))

end Points

/-! ## Windows -/

/-- An instruction of a block, or its terminator, has a window. -/
def IsSpillPoint (block : Block) (index : ℕ) : Prop :=
  (∃ inst, block.insts[index]? = some inst ∧ instSpillPoint inst.kind = true) ∨
    index = block.insts.length ∧ termSpillPoint block.term = true

/-- The set of the window at a point, empty without a plan. -/
def windowSet (result : Option TempSpillPlan) (block : Block) (index : ℕ) : List Value :=
  result.elim [] fun plan ↦
    ((if index < block.insts.length then plan.instSpills block.id index
      else plan.termSpills block.id).getD [])

/-- A value is read after the instruction or the terminator at a point. -/
def ReadAfter (f : Function) (entries : EntryStacks) (block : Block) (index : ℕ) (value : Value) :
    Prop :=
  (∃ inst, block.insts[index]? = some inst ∧ inst.result ≠ value ∧
    ReadFrom f entries block.id (index + 1) value) ∨
  index = block.insts.length ∧ ∃ target,
    (target ∈ successors block.term ∨ target ∈ handlerTargets entries block) ∧
      ReadFrom f entries target 0 value

theorem le_foldl_max (sizes : List ℕ) (start : ℕ) :
    start ≤ sizes.foldl max start ∧ ∀ size ∈ sizes, size ≤ sizes.foldl max start := by
  induction sizes generalizing start with
  | nil => exact ⟨le_refl start, nofun⟩
  | cons size sizes ih =>
    obtain ⟨first, rest⟩ := ih (max start size)
    exact ⟨(le_max_left _ _).trans first,
      List.forall_mem_cons.mpr ⟨(le_max_right _ _).trans first, rest⟩⟩

section Windows

variable {f : Function} {entries : EntryStacks} {liveIn : BlockId → Finset Value} {block : Block}
  {index : ℕ} {value : Value}

section

variable (solved : ∀ id value, value ∈ liveIn id ↔ (flowGraph f entries).Live id value)
include solved

theorem mem_liveOut :
    value ∈ liveOut entries liveIn block ↔
      ∃ target ∈ blockEdges entries block, (flowGraph f entries).Live target value := by
  simp [liveOut, solved]

/-- The walk back arrives at an instruction with what is read from the next one on. -/
theorem mem_walkBack_drop :
    value ∈ (walkBack (liveOut entries liveIn block ∪ (terminatorOperands block.term).toFinset)
      (block.insts.drop index)).1 ↔ ReadInRest f entries block index value := by
  rw [mem_walkBack, Finset.mem_union, mem_liveOut solved, List.mem_toFinset, terminatorOperands_eq,
    or_comm (b := value ∈ block.term.operands)]
  rfl

end

section

variable (found : f.block? block.id = some block)
include found

theorem readInRest_iff (inside : index ≤ block.insts.length) :
    ReadInRest f entries block index value ↔ ReadFrom f entries block.id index value := by
  refine ⟨fun read ↦ read.readFrom found inside, fun read ↦ ?_⟩
  obtain ⟨block', found', read⟩ := read.readInRest
  obtain rfl := Option.some.inj (found.symm.trans found')
  exact read

theorem plan_instSpills (index : ℕ) :
    (plan f entries liveIn).instSpills block.id index =
      (instSets entries liveIn block)[index]?.join := by
  simp only [plan, found, Option.bind_some]

theorem plan_termSpills :
    (plan f entries liveIn).termSpills block.id = termSet entries liveIn block := by
  simp only [plan, found, Option.bind_some]

end

/-- The set of a window holds the values that are read after it. -/
theorem mem_windowSet_plan
    (solved : ∀ id value, value ∈ liveIn id ↔ (flowGraph f entries).Live id value)
    (found : f.block? block.id = some block) (point : IsSpillPoint block index) :
    value ∈ windowSet (some (plan f entries liveIn)) block index ↔
      ReadAfter f entries block index value := by
  rw [windowSet, Option.elim_some]
  rcases point with ⟨inst, at_, spills⟩ | ⟨rfl, spills⟩
  · have inside : index < block.insts.length := (List.getElem?_eq_some_iff.mp at_).1
    have set : (plan f entries liveIn).instSpills block.id index = some (sorted
        ((walkBack (liveOut entries liveIn block ∪ (terminatorOperands block.term).toFinset)
          (block.insts.drop (index + 1))).1.erase inst.result)) := by
      rw [plan_instSpills found, instSets, getElem?_walkBack, at_, Option.map_some, if_pos spills]
      rfl
    rw [if_pos inside, set, Option.getD_some, sorted, Finset.mem_sort, Finset.mem_erase,
      mem_walkBack_drop solved, readInRest_iff found inside]
    constructor
    · rintro ⟨kept, read⟩
      exact .inl ⟨inst, at_, kept.symm, read⟩
    · rintro (⟨inst', at', kept, read⟩ | ⟨rfl, -⟩)
      · obtain rfl := Option.some.inj (at_.symm.trans at')
        exact ⟨kept.symm, read⟩
      · exact absurd inside (lt_irrefl _)
  · rw [if_neg (lt_irrefl _), plan_termSpills found, termSet, if_pos spills, Option.getD_some, sorted,
      Finset.mem_sort, mem_liveOut solved]
    simp only [live_iff, mem_blockEdges]
    constructor
    · exact fun ⟨target, edge, read⟩ ↦ .inr ⟨rfl, target, edge, read⟩
    · rintro (⟨inst, at_, -⟩ | ⟨-, target, edge, read⟩)
      · rw [List.getElem?_length] at at_
        cases at_
      · exact ⟨target, edge, read⟩

/-- Without a pool every set is empty. -/
theorem windowSet_eq_nil (member : block ∈ f.blocks) (found : f.block? block.id = some block)
    (empty : (plan f entries liveIn).poolSize = 0) :
    windowSet (some (plan f entries liveIn)) block index = [] := by
  have sizes : ∀ set ∈ termSet entries liveIn block :: instSets entries liveIn block,
      set.getD [] = [] := by
    intro set mem
    have bound := (le_foldl_max ((f.blocks.flatMap fun block ↦
      termSet entries liveIn block :: instSets entries liveIn block).map
        fun set ↦ (set.getD []).length) 0).2 _
      (List.mem_map_of_mem (List.mem_flatMap.mpr ⟨block, member, mem⟩))
    exact List.length_eq_zero_iff.mp (Nat.le_zero.mp (bound.trans empty.le))
  rw [windowSet, Option.elim_some]
  split_ifs
  · rw [plan_instSpills found]
    cases at_ : (instSets entries liveIn block)[index]? with
    | none => rfl
    | some set => exact sizes set (List.mem_cons_of_mem _ (List.mem_of_getElem? at_))
  · rw [plan_termSpills found]
    exact sizes _ List.mem_cons_self

theorem not_isSpillPoint (none : hasSites f = false) (member : block ∈ f.blocks) :
    ¬IsSpillPoint block index := by
  have free := List.any_eq_false.mp none block member
  rw [Bool.or_eq_true, not_or] at free
  rintro (⟨inst, at_, spills⟩ | ⟨-, spills⟩)
  · exact free.2 (List.any_eq_true.mpr ⟨inst, List.mem_of_getElem? at_, spills⟩)
  · exact free.1 spills

end Windows

/-- The computation ends, with an error or with a plan, and the sets of the plan hold exactly the values
that are read after the windows. -/
theorem compute_spec (f : Function) : ∃ bound, ∀ fuel, bound ≤ fuel →
    (∃ message, compute f fuel = some (.error message)) ∨
      ∃ result, compute f fuel = some (.ok result) ∧
        (hasSites f = true → ∃ entries, blockExceptionEntryStacks f fuel = some (.ok entries) ∧
          Consistent f entries ∧ ∀ block ∈ f.blocks, f.block? block.id = some block →
            ∀ index value, IsSpillPoint block index →
              (value ∈ windowSet result block index ↔ ReadAfter f entries block index value)) := by
  obtain ⟨stackBound, walked⟩ := blockExceptionEntryStacks_spec f
  refine ⟨max stackBound ((flowGraph f fun _ ↦ none).missing (fun _ ↦ ∅) + 1), fun fuel enough ↦ ?_⟩
  obtain ⟨enoughStacks, enoughRounds⟩ := max_le_iff.mp enough
  cases sites : hasSites f with
  | false => exact .inr ⟨none, by simp [compute, sites], nofun⟩
  | true =>
    rcases walked fuel enoughStacks with ⟨message, failed⟩ | ⟨entries, done, consistent⟩
    · exact .inl ⟨message, by simp [compute, sites, failed]⟩
    · obtain ⟨liveIn, solved, live⟩ := (FlowGraph.growing_empty (g := flowGraph f entries)).solve_eq_some
        (Nat.lt_of_succ_le enoughRounds)
      by_cases empty : (plan f entries liveIn).poolSize = 0
      · refine .inr ⟨none, by simp [compute, sites, done, solved, empty], fun _ ↦
          ⟨entries, done, consistent, fun block member found index value point ↦ ?_⟩⟩
        rw [← mem_windowSet_plan live found point, windowSet_eq_nil member found empty]
        rfl
      · exact .inr ⟨some (plan f entries liveIn), by simp [compute, sites, done, solved, empty], fun _ ↦
          ⟨entries, done, consistent, fun block member found index value point ↦
            mem_windowSet_plan live found point⟩⟩

end Pon.Codegen.Spill
