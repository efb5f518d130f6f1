import Pon.Codegen.Region
import Pon.Ir.Operands
import Pon.Lib.SingleEntry
import Mathlib.Data.Finset.Card
import Mathlib.Order.WellFounded

/-!
# The shape of a typed region

The search for a region walks the typed blocks that its entry leads to and drops those that control
enters from outside, in rounds over a hash set whose order is not fixed. In every order the rounds end
with the same blocks: the greatest single-entry set of typed blocks of that entry.
-/

namespace Pon.Codegen

open Ir Relation Pon.Flow

/-! ## The loops of the search -/

/-- Control flow between blocks. -/
def FlowEdge (f : Function) (source target : BlockId) : Prop :=
  ∃ block, f.block? source = some block ∧ target ∈ successors block.term

/-- The blocks that one turn of the walk adds. -/
def newSuccessors (f : Function) (reachable : List BlockId) (id : BlockId) : List BlockId :=
  ((f.block? id).elim [] fun block ↦ successors block.term).eraseDups.filter
    fun successor ↦ isCompatible f successor && !reachable.contains successor

/-- The walk from a queue and a reachable set to its end, where the queue is empty. -/
inductive CollectRuns (f : Function) : List BlockId → List BlockId → List BlockId → Prop where
  | done (reachable : List BlockId) : CollectRuns f [] reachable reachable
  | pop {id : BlockId} {queue reachable result : List BlockId}
      (rest : CollectRuns f (queue ++ newSuccessors f reachable id)
        (reachable ++ newSuccessors f reachable id) result) :
      CollectRuns f (id :: queue) reachable result

/-- One block of a round: it is dropped if control can enter it from outside. -/
def pruneBlock (f : Function) (entry : BlockId) (kept : List BlockId) (id : BlockId) : List BlockId :=
  if id != entry && (predecessors f id).any (fun pred ↦ !kept.contains pred)
  then kept.filter (· != id) else kept

/-- One round over the reachable set in the order in which it is listed. -/
def pruneRoundIn (f : Function) (entry : BlockId) (order reachable : List BlockId) : List BlockId :=
  order.foldl (pruneBlock f entry) reachable

/-- A round that removes something, in any order. -/
def PruneStep (f : Function) (entry : BlockId) (next reachable : List BlockId) : Prop :=
  ∃ order : List BlockId, order.Perm reachable ∧ next = pruneRoundIn f entry order reachable ∧
    next ≠ reachable

/-- The rounds up to the first one that removes nothing, each in any order. -/
inductive PruneRuns (f : Function) (entry : BlockId) : List BlockId → List BlockId → Prop where
  | done {order reachable : List BlockId} (perm : order.Perm reachable)
      (unchanged : pruneRoundIn f entry order reachable = reachable) :
      PruneRuns f entry reachable reachable
  | round {next reachable result : List BlockId} (step : PruneStep f entry next reachable)
      (rest : PruneRuns f entry next result) : PruneRuns f entry reachable result

/-! ## Edges and predecessors -/

section Edges

variable {f : Function}

variable {target id : BlockId}

theorem flowEdge_iff_mem_predecessors (unique : (f.blocks.map (·.id)).Nodup) {source : BlockId} :
    FlowEdge f source target ↔ source ∈ predecessors f target := by
  simp only [FlowEdge, predecessors, List.mem_map, List.mem_filter, decide_eq_true_eq]
  constructor
  · rintro ⟨block, found, mem⟩
    have isBlock : block.id = source := by simpa using List.find?_some found
    exact ⟨block, ⟨List.mem_of_find?_eq_some found, mem⟩, isBlock⟩
  · rintro ⟨block, ⟨inFunction, mem⟩, rfl⟩
    exact ⟨block, Function.block?_of_unique unique inFunction, mem⟩

theorem nodup_eraseDups {α : Type*} [DecidableEq α] (l : List α) : l.eraseDups.Nodup := by
  induction hlen : l.length using Nat.strong_induction_on generalizing l with
  | _ n ih =>
    cases l with
    | nil => exact List.nodup_nil
    | cons a l =>
      rw [List.eraseDups_cons]
      refine List.nodup_cons.mpr ⟨fun mem ↦ ?_, ih _ ?_ _ rfl⟩
      · simpa using (List.mem_filter.mp (List.mem_eraseDups.mp mem)).2
      · rw [← hlen, List.length_cons]
        exact Nat.lt_succ_of_le (List.length_filter_le _ _)

theorem nodup_newSuccessors (f : Function) (reachable : List BlockId) (id : BlockId) :
    (newSuccessors f reachable id).Nodup := (nodup_eraseDups _).filter _

theorem mem_newSuccessors {reachable : List BlockId} :
    target ∈ newSuccessors f reachable id ↔
      FlowEdge f id target ∧ isCompatible f target = true ∧ target ∉ reachable := by
  simp only [newSuccessors, List.mem_filter, List.mem_eraseDups, Bool.and_eq_true,
    Bool.not_eq_true', List.contains_eq_mem, decide_eq_false_iff_not, FlowEdge]
  cases f.block? id with
  | none => simp
  | some block => simp

theorem mem_blocks_of_isCompatible (h : isCompatible f id = true) : id ∈ f.blocks.map (·.id) := by
  unfold isCompatible at h
  cases found : f.block? id with
  | none =>
    rw [found] at h
    cases h
  | some block =>
    have isBlock : block.id = id := by simpa using List.find?_some found
    exact List.mem_map.mpr ⟨block, List.mem_of_find?_eq_some found, isBlock⟩

end Edges

/-! ## The walk -/

section Walk

variable {f : Function} {entry : BlockId}

/-- The blocks that an entry leads to through typed blocks. -/
abbrev reachedBlocks (f : Function) (entry : BlockId) : Set BlockId :=
  Reached (FlowEdge f) (fun id ↦ isCompatible f id = true) entry

/-- Every block that is not queued any more has its typed successors in the reachable set. -/
structure Walk (f : Function) (entry : BlockId) (queue reachable : List BlockId) : Prop where
  entry_mem : entry ∈ reachable
  reached : ∀ id ∈ reachable, id ∈ reachedBlocks f entry
  queue_subset : queue ⊆ reachable
  nodup : reachable.Nodup
  closed : ∀ id ∈ reachable, id ∉ queue → ∀ target, FlowEdge f id target →
    isCompatible f target = true → target ∈ reachable

theorem Walk.start (f : Function) (entry : BlockId) : Walk f entry [entry] [entry] where
  entry_mem := List.mem_singleton_self _
  reached id mem := by
    rw [List.mem_singleton.mp mem]
    exact ReflTransGen.refl
  queue_subset := List.Subset.refl _
  nodup := List.nodup_singleton _
  closed id mem other := absurd mem other

variable {reachable : List BlockId}

variable {queue : List BlockId}

theorem Walk.pop {id : BlockId} (walk : Walk f entry (id :: queue) reachable) :
    Walk f entry (queue ++ newSuccessors f reachable id)
      (reachable ++ newSuccessors f reachable id) where
  entry_mem := List.mem_append_left _ walk.entry_mem
  reached target mem := by
    rcases List.mem_append.mp mem with old | new
    · exact walk.reached target old
    · obtain ⟨edge, typed, -⟩ := mem_newSuccessors.mp new
      exact .tail (walk.reached id (walk.queue_subset List.mem_cons_self)) ⟨edge, typed⟩
  queue_subset := by
    intro target mem
    rcases List.mem_append.mp mem with queued | new
    · exact List.mem_append_left _ (walk.queue_subset (List.mem_cons_of_mem _ queued))
    · exact List.mem_append_right _ new
  nodup := by
    refine walk.nodup.append (nodup_newSuccessors f reachable id) ?_
    exact fun target old new ↦ (mem_newSuccessors.mp new).2.2 old
  closed source mem done target edge typed := by
    have notNew : source ∉ newSuccessors f reachable id := fun h ↦ done (List.mem_append_right _ h)
    have old : source ∈ reachable := (List.mem_append.mp mem).resolve_right notNew
    by_cases same : source = id
    · by_cases seen : target ∈ reachable
      · exact List.mem_append_left _ seen
      · exact List.mem_append_right _ (mem_newSuccessors.mpr ⟨same ▸ edge, typed, seen⟩)
    · refine List.mem_append_left _ (walk.closed source old (fun queued ↦ ?_) target edge typed)
      rcases List.mem_cons.mp queued with isId | queued
      · exact same isId
      · exact done (List.mem_append_left _ queued)

theorem Walk.mem_iff (walk : Walk f entry [] reachable) (id : BlockId) :
    id ∈ reachable ↔ id ∈ reachedBlocks f entry := by
  refine ⟨walk.reached id, fun path ↦ ?_⟩
  induction path with
  | refl => exact walk.entry_mem
  | tail _ last ih => exact walk.closed _ ih List.not_mem_nil _ last.1 last.2

theorem CollectRuns.walk {result : List BlockId} (runs : CollectRuns f queue reachable result)
    (walk : Walk f entry queue reachable) :
    Walk f entry [] result := by
  induction runs with
  | done => exact walk
  | pop _ ih => exact ih walk.pop

/-- The blocks of the function that the walk has not reached. -/
def unseen (f : Function) (reachable : List BlockId) : Finset BlockId :=
  (f.blocks.map (·.id)).toFinset \ reachable.toFinset

theorem unseen_newSuccessors (f : Function) (reachable : List BlockId) (id : BlockId) :
    (unseen f (reachable ++ newSuccessors f reachable id)).card +
      (newSuccessors f reachable id).length = (unseen f reachable).card := by
  have nodup := nodup_newSuccessors f reachable id
  have sub : (newSuccessors f reachable id).toFinset ⊆ unseen f reachable := by
    intro target mem
    obtain ⟨-, typed, fresh⟩ := mem_newSuccessors.mp (List.mem_toFinset.mp mem)
    exact Finset.mem_sdiff.mpr ⟨List.mem_toFinset.mpr (mem_blocks_of_isCompatible typed),
      fun seen ↦ fresh (List.mem_toFinset.mp seen)⟩
  have split : unseen f (reachable ++ newSuccessors f reachable id) =
      unseen f reachable \ (newSuccessors f reachable id).toFinset := by
    rw [unseen, unseen, List.toFinset_append, sdiff_sdiff_left, Finset.sup_eq_union]
  rw [split, ← List.toFinset_card_of_nodup nodup, Finset.card_sdiff_add_card_eq_card sub]

/-- The walk ends within a turn for each queued block and each block not reached yet. -/
theorem collectCompatibleReachable_runs (f : Function) :
    ∀ (fuel : ℕ) (queue reachable : List BlockId),
      queue.length + (unseen f reachable).card ≤ fuel →
      CollectRuns f queue reachable (collectCompatibleReachable f fuel queue reachable)
  | 0, [], reachable, _ => .done reachable
  | 0, _ :: _, _, enough => absurd enough (by rw [List.length_cons]; omega)
  | _ + 1, [], reachable, _ => .done reachable
  | fuel + 1, id :: queue, reachable, enough => by
    refine .pop (collectCompatibleReachable_runs f fuel _ _ ?_)
    have split := unseen_newSuccessors f reachable id
    rw [List.length_cons] at enough
    rw [List.length_append]
    omega

theorem collect_start (f : Function) (entry : BlockId) :
    CollectRuns f [entry] [entry]
      (collectCompatibleReachable f (f.blocks.length + 1) [entry] [entry]) := by
  refine collectCompatibleReachable_runs f _ _ _ ?_
  have bound : (unseen f [entry]).card ≤ f.blocks.length := by
    refine (Finset.card_le_card Finset.sdiff_subset).trans ?_
    exact (List.toFinset_card_le _).trans_eq (List.length_map _)
  rw [List.length_singleton]
  omega

end Walk

/-! ## The rounds -/

section Rounds

variable {f : Function} {entry : BlockId}

theorem pruneBlock_sublist (kept : List BlockId) (id : BlockId) :
    (pruneBlock f entry kept id).Sublist kept := by
  unfold pruneBlock
  split_ifs
  · exact List.filter_sublist
  · exact List.Sublist.refl _

theorem pruneRoundIn_sublist (order reachable : List BlockId) :
    (pruneRoundIn f entry order reachable).Sublist reachable := by
  induction order generalizing reachable with
  | nil => exact List.Sublist.refl _
  | cons id order ih => exact (ih _).trans (pruneBlock_sublist reachable id)

variable {id : BlockId} {order : List BlockId}

/-- What a block of a round drops is not the entry and has a predecessor outside. -/
theorem mem_pruneBlock_of (unique : (f.blocks.map (·.id)).Nodup) {kept : List BlockId}
    {other : BlockId} (mem : other ∈ kept)
    (inside : other ≠ entry → ∀ pred, FlowEdge f pred other → pred ∈ kept) :
    other ∈ pruneBlock f entry kept id := by
  unfold pruneBlock
  split_ifs with dropped
  · refine List.mem_filter.mpr ⟨mem, ?_⟩
    rw [bne_iff_ne]
    rintro rfl
    simp only [Bool.and_eq_true, bne_iff_ne, List.any_eq_true, Bool.not_eq_true',
      List.contains_eq_mem, decide_eq_false_iff_not] at dropped
    obtain ⟨notEntry, pred, isPred, outside⟩ := dropped
    exact outside (inside notEntry pred ((flowEdge_iff_mem_predecessors unique).mpr isPred))
  · exact mem

variable {reachable : List BlockId}

/-- A set whose blocks other than the entry have their predecessors in it survives a round. -/
theorem pruneRoundIn_keeps (unique : (f.blocks.map (·.id)).Nodup) {S : Set BlockId}
    (enclosed : ∀ id ∈ S, id ≠ entry → ∀ pred, FlowEdge f pred id → pred ∈ S) (order : List BlockId)
    (sub : ∀ id ∈ S, id ∈ reachable) :
    ∀ id ∈ S, id ∈ pruneRoundIn f entry order reachable := by
  induction order generalizing reachable with
  | nil => exact sub
  | cons id order ih =>
    refine ih fun other mem ↦ mem_pruneBlock_of unique (sub other mem) fun notEntry pred edge ↦ ?_
    exact sub pred (enclosed other mem notEntry pred edge)

/-- A round that removes nothing found no block to remove. -/
theorem pruneBlock_of_unchanged (unchanged : pruneRoundIn f entry order reachable = reachable) :
    ∀ id ∈ order, pruneBlock f entry reachable id = reachable := by
  induction order with
  | nil => exact fun id mem ↦ absurd mem List.not_mem_nil
  | cons first order ih =>
    have later : (pruneRoundIn f entry order (pruneBlock f entry reachable first)).Sublist
        (pruneBlock f entry reachable first) := pruneRoundIn_sublist order _
    have step : pruneRoundIn f entry order (pruneBlock f entry reachable first) = reachable := unchanged
    rw [step] at later
    have same : pruneBlock f entry reachable first = reachable :=
      (pruneBlock_sublist reachable first).antisymm later
    rw [same] at step
    intro id mem
    rcases List.mem_cons.mp mem with rfl | tail
    · exact same
    · exact ih step id tail

/-- Once a round removes nothing, control enters only through the entry. -/
theorem enclosed_of_unchanged (unique : (f.blocks.map (·.id)).Nodup) (perm : order.Perm reachable)
    (unchanged : pruneRoundIn f entry order reachable = reachable) {pred : BlockId}
    (mem : id ∈ reachable) (notEntry : id ≠ entry) (edge : FlowEdge f pred id) :
    pred ∈ reachable := by
  by_contra outside
  have kept := pruneBlock_of_unchanged unchanged id (perm.mem_iff.mpr mem)
  have dropped : (id != entry && (predecessors f id).any fun pred ↦ !reachable.contains pred) = true := by
    simp only [Bool.and_eq_true, bne_iff_ne, List.any_eq_true, Bool.not_eq_true',
      List.contains_eq_mem, decide_eq_false_iff_not]
    exact ⟨notEntry, pred, (flowEdge_iff_mem_predecessors unique).mp edge, outside⟩
  rw [pruneBlock, if_pos dropped] at kept
  rw [← kept] at mem
  simpa using (List.mem_filter.mp mem).2

theorem PruneStep.length_lt {next : List BlockId} (step : PruneStep f entry next reachable) :
    next.length < reachable.length := by
  obtain ⟨order, -, rfl, changed⟩ := step
  have sub : (pruneRoundIn f entry order reachable).Sublist reachable :=
    pruneRoundIn_sublist order reachable
  exact Nat.lt_of_le_of_ne sub.length_le fun same ↦ changed (sub.eq_of_length same)

/-- No order of the rounds goes on for ever. -/
theorem pruneStep_wellFounded (f : Function) (entry : BlockId) :
    WellFounded (PruneStep f entry) :=
  Subrelation.wf (fun step ↦ step.length_lt) (measure List.length).wf

/-- The rounds in the order of the reachable list itself end within one round for each block. -/
theorem pruneExternalEntries_runs (f : Function) (entry : BlockId) :
    ∀ (fuel : ℕ) (reachable : List BlockId), reachable.length < fuel →
      PruneRuns f entry reachable (pruneExternalEntries f entry fuel reachable)
  | 0, _, enough => absurd enough (Nat.not_lt_zero _)
  | fuel + 1, reachable, enough => by
    have sub : (pruneRound f entry reachable).Sublist reachable :=
      pruneRoundIn_sublist reachable reachable
    rw [pruneExternalEntries]
    split_ifs with same
    · rw [sub.eq_of_length same]
      exact .done (List.Perm.refl _) (sub.eq_of_length same)
    · have step : PruneStep f entry (pruneRound f entry reachable) reachable :=
        ⟨reachable, List.Perm.refl _, rfl, fun h ↦ same (congrArg List.length h)⟩
      refine .round step (pruneExternalEntries_runs f entry fuel _ ?_)
      exact Nat.lt_of_lt_of_le step.length_lt (Nat.lt_succ_iff.mp enough)

/-- The rounds, in any order, end with what an enclosed set must be part of. -/
theorem PruneRuns.spec (unique : (f.blocks.map (·.id)).Nodup) {result : List BlockId}
    (runs : PruneRuns f entry reachable result) :
    result ⊆ reachable ∧
      (∀ id ∈ result, id ≠ entry → ∀ pred, FlowEdge f pred id → pred ∈ result) ∧
      ∀ S : Set BlockId, (∀ id ∈ S, id ≠ entry → ∀ pred, FlowEdge f pred id → pred ∈ S) →
        (∀ id ∈ S, id ∈ reachable) → ∀ id ∈ S, id ∈ result := by
  induction runs with
  | done perm unchanged =>
    exact ⟨List.Subset.refl _,
      fun id mem notEntry pred edge ↦ enclosed_of_unchanged unique perm unchanged mem notEntry edge,
      fun S _ sub ↦ sub⟩
  | round step rest ih =>
    obtain ⟨order, -, rfl, -⟩ := step
    obtain ⟨sub, enclosed, keeps⟩ := ih
    refine ⟨List.Subset.trans sub (pruneRoundIn_sublist order _).subset, enclosed, fun S closed inside ↦ ?_⟩
    exact keeps S closed (pruneRoundIn_keeps unique closed order inside)

end Rounds

/-! ## The region -/

/-- The sets of typed blocks that control enters only through `entry` and goes through from there. -/
abbrev TypedSingleEntry (f : Function) (entry : BlockId) : Set BlockId → Prop :=
  SingleEntry (FlowEdge f) (fun id ↦ isCompatible f id = true) entry

variable {f : Function} {entry : BlockId}

/-- In whatever order blocks are pruned, the greatest single-entry set of typed blocks is left. -/
theorem isGreatest_of_runs (unique : (f.blocks.map (·.id)).Nodup)
    (typed : isCompatible f entry = true) {reachable result : List BlockId}
    (collect : CollectRuns f [entry] [entry] reachable) (prune : PruneRuns f entry reachable result) :
    IsGreatest {S | TypedSingleEntry f entry S} {id | id ∈ result} := by
  have walk := collect.walk (Walk.start f entry)
  obtain ⟨sub, enclosed, keeps⟩ := prune.spec unique
  have start : entry ∈ result := by
    refine keeps {entry} (fun id mem notEntry ↦ absurd mem notEntry) (fun id mem ↦ ?_) entry rfl
    rw [Set.mem_singleton_iff.mp mem]
    exact walk.entry_mem
  refine isGreatest_of_enclosed start typed (fun id mem ↦ walk.reached id (sub mem)) enclosed ?_
  intro S region
  exact keeps S region.enclosed fun id mem ↦ (walk.mem_iff id).mpr (region.subset_reached mem)

variable {block : Block} {kind : InstKind Value}

theorem isCompatible_of_typed (unique : (f.blocks.map (·.id)).Nodup) (mem : block ∈ f.blocks)
    (typed : isTypedBlock block = true) :
    isCompatible f block.id = true := by
  rw [isCompatible, Function.block?_of_unique unique mem]
  exact typed

theorem mem_blocks_of_reached {id : BlockId} (typed : isCompatible f entry = true)
    (path : id ∈ reachedBlocks f entry) :
    id ∈ f.blocks.map (·.id) := by
  rcases ReflTransGen.cases_tail path with rfl | ⟨_, _, last⟩
  · exact mem_blocks_of_isCompatible typed
  · exact mem_blocks_of_isCompatible last.2

/-- The blocks of a region are what one order of the rounds leaves of the walk. -/
theorem buildRegion_runs (typed : isCompatible f entry = true) {region : TypedRegion}
    (built : buildRegion f entry = some region) :
    region.entry = entry ∧ region.liveIns = collectLiveIns f region.blocks ∧
      ∃ reachable result, CollectRuns f [entry] [entry] reachable ∧
        PruneRuns f entry reachable result ∧ ∀ id, id ∈ region.blocks ↔ id ∈ result := by
  have collect := collect_start f entry
  have walk := collect.walk (Walk.start f entry)
  have inFunction : ∀ id ∈ collectCompatibleReachable f (f.blocks.length + 1) [entry] [entry],
      id ∈ f.blocks.map (·.id) := fun id mem ↦ mem_blocks_of_reached typed (walk.reached id mem)
  have bound : (collectCompatibleReachable f (f.blocks.length + 1) [entry] [entry]).length <
      f.blocks.length + 1 := by
    have small := (walk.nodup.subperm inFunction).length_le
    rw [List.length_map] at small
    exact Nat.lt_succ_of_le small
  have prune := pruneExternalEntries_runs f entry _ _ bound
  simp only [buildRegion] at built
  split_ifs at built
  obtain rfl := Option.some.inj built
  refine ⟨rfl, rfl, _, _, collect, prune, fun id ↦ ?_⟩
  rw [List.mem_filter, List.contains_iff_mem]
  refine ⟨fun h ↦ h.2, fun mem ↦ ⟨inFunction id ?_, mem⟩⟩
  exact pruneExternalEntries_subset f entry _ _ mem

/-! ## Live-ins -/

theorem terminatorOperands_eq (term : Terminator Value) : terminatorOperands term = term.operands := by
  cases term <;> rfl

/-- The operand lists of the code generator leave out those of two instructions. -/
theorem instOperands_eq
    (notAnnotate : ∀ function annotate, kind ≠ .functionSetAnnotate function annotate)
    (notAlias : ∀ name thunk, kind ≠ .makeTypeAlias name thunk) :
    instOperands kind = kind.operands := by
  cases kind with
  | functionSetAnnotate function annotate => exact absurd rfl (notAnnotate function annotate)
  | makeTypeAlias name thunk => exact absurd rfl (notAlias name thunk)
  | buildString parts | buildTemplate parts =>
    refine congrArg (List.flatMap · parts) (funext fun part ↦ ?_)
    cases part <;> rfl
  | _ => rfl

theorem instOperands_of_isFastPathKind (fast : isFastPathKind kind = true) :
    instOperands kind = kind.operands := by
  refine instOperands_eq ?_ ?_
  · rintro function annotate rfl
    cases fast
  · rintro name thunk rfl
    cases fast

/-- The values that the instructions and the terminator of a block read. -/
def usedValues (block : Block) : List Value :=
  block.insts.flatMap (fun inst ↦ inst.kind.operands) ++ block.term.operands

/-- A value that a typed block of a set of blocks reads is produced there or is a live-in. -/
theorem mem_collectLiveIns {blocks : List BlockId} (mem : block ∈ f.blocks)
    (inside : block.id ∈ blocks) (typed : isTypedBlock block = true) {value : Value}
    (used : value ∈ usedValues block)
    (notProduced : ∀ other ∈ f.blocks, other.id ∈ blocks → ∀ inst ∈ other.insts, inst.result ≠ value) :
    value ∈ (collectLiveIns f blocks).map (·.value) := by
  have isInside : block ∈ f.blocks.filter fun block ↦ blocks.contains block.id :=
    List.mem_filter.mpr ⟨mem, List.contains_iff_mem.mpr inside⟩
  simp only [isTypedBlock, Bool.and_eq_true, List.all_eq_true, isTypedInst] at typed
  simp only [collectLiveIns, List.map_map, List.mem_map, List.mem_eraseDups, List.mem_filter,
    List.mem_flatMap, List.mem_append, Function.comp_apply]
  refine ⟨value, ⟨⟨block, List.mem_filter.mp isInside, ?_⟩, ?_⟩, rfl⟩
  · rcases List.mem_append.mp used with operand | operand
    · obtain ⟨inst, instMem, isOperand⟩ := List.mem_flatMap.mp operand
      refine .inl ⟨inst, instMem, ?_⟩
      rwa [instOperands_of_isFastPathKind (typed.1 inst instMem).1]
    · exact .inr (by rwa [terminatorOperands_eq])
  · rw [Bool.not_eq_true', List.contains_eq_mem, decide_eq_false_iff_not]
    intro produced
    obtain ⟨other, otherInside, instMem⟩ := List.mem_flatMap.mp produced
    obtain ⟨inst, instMem, isResult⟩ := List.mem_map.mp instMem
    have parts := List.mem_filter.mp otherInside
    exact notProduced other parts.1 (List.contains_iff_mem.mp parts.2) inst instMem isResult

/-- The search ends on every graph, in every order of pruning. The region it returns is the greatest
single-entry set of typed blocks of its entry, every order of pruning gives its blocks, and the values
that it reads and does not produce are live-ins. -/
theorem findMaximalTypedRegion_shape {f : Function} (unique : (f.blocks.map (·.id)).Nodup) :
    (∀ entry, (∃ reachable, CollectRuns f [entry] [entry] reachable) ∧
      WellFounded (PruneStep f entry)) ∧
    ∀ region, findMaximalTypedRegion f = some region →
      IsGreatest {S | TypedSingleEntry f region.entry S} {id | id ∈ region.blocks} ∧
      (∀ reachable result, CollectRuns f [region.entry] [region.entry] reachable →
        PruneRuns f region.entry reachable result → ∀ id, id ∈ result ↔ id ∈ region.blocks) ∧
      ∀ block ∈ f.blocks, block.id ∈ region.blocks → ∀ value ∈ usedValues block,
        (∀ other ∈ f.blocks, other.id ∈ region.blocks → ∀ inst ∈ other.insts,
          inst.result ≠ value) → value ∈ region.liveIns.map (·.value) := by
  refine ⟨fun entry ↦ ⟨⟨_, collect_start f entry⟩, pruneStep_wellFounded f entry⟩, ?_⟩
  intro region found
  obtain ⟨block, mem, typed, built⟩ := findMaximalTypedRegion_built found
  have compatible := isCompatible_of_typed unique mem typed
  obtain ⟨isEntry, liveIns, reachable, result, collect, prune, same⟩ :=
    buildRegion_runs compatible built
  have greatest : IsGreatest {S | TypedSingleEntry f region.entry S} {id | id ∈ region.blocks} := by
    have blocks : {id | id ∈ region.blocks} = {id | id ∈ result} := Set.ext same
    rw [isEntry, blocks]
    exact isGreatest_of_runs unique compatible collect prune
  refine ⟨greatest, ?_, ?_⟩
  · intro reachable' result' collect' prune' id
    rw [isEntry] at collect' prune' greatest
    have other := isGreatest_of_runs unique compatible collect' prune'
    exact Set.ext_iff.mp (other.unique greatest) id
  · intro other otherMem inside value used notProduced
    rw [liveIns]
    refine mem_collectLiveIns otherMem inside ?_ used notProduced
    have admissible := greatest.1.admissible other.id inside
    rw [isCompatible, Function.block?_of_unique unique otherMem] at admissible
    exact admissible

/-- `while i < 10: i += 1` with an unboxed counter. -/
def countingFunction : Function where
  blocks :=
    [⟨0, [⟨0, .loadGlobal "start", .bottom, .object⟩, ⟨1, .storeLocal 0 0, .bottom, .object⟩], .jump 1⟩,
      ⟨1, [⟨2, .loadLocal 0, .intI64, .object⟩, ⟨3, .const (.int 10), .bottom, .object⟩,
        ⟨4, .compare .lt 2 3, .bottom, .object⟩], .branch 4 2 3⟩,
      ⟨2, [⟨5, .const (.int 1), .bottom, .object⟩, ⟨6, .binaryOp .add 2 5, .intI64, .object⟩,
        ⟨7, .storeLocal 0 6, .intI64, .object⟩], .jump 1⟩,
      ⟨3, [⟨8, .loadGlobal "result", .bottom, .object⟩], .ret 8⟩]

theorem findMaximalTypedRegion_shape_counting :
    ∃ region, findMaximalTypedRegion countingFunction = some region ∧ region.blocks = [1, 2] ∧
      IsGreatest {S | TypedSingleEntry countingFunction region.entry S} {id | id ∈ region.blocks} := by
  obtain ⟨region, found, blocks⟩ := Option.map_eq_some_iff.mp
    (show (findMaximalTypedRegion countingFunction).map (·.blocks) = some [1, 2] by decide)
  have shape := findMaximalTypedRegion_shape (f := countingFunction) (by decide)
  exact ⟨region, found, blocks, (shape.2 region found).1⟩

end Pon.Codegen
