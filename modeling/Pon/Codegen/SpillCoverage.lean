import Pon.Codegen.SpillSets

/-!
# Coverage of spill windows

Control goes from instruction to instruction, along the edges of the blocks, and from every place at which
an exception may occur to the innermost active handler. In static single assignment form the windows
hold every temporary that is read after them, unless only `FunctionSetAnnotate` or `MakeTypeAlias` reads
it.
-/

namespace Pon.Codegen.Spill

open Ir Relation

/-! ## Runs -/

/-- A place in a function and the handlers that are active there, innermost last. The place behind the
last instruction of a block is that of its terminator. -/
structure Site where
  block : BlockId
  index : ℕ
  handlers : List BlockId

/-- One step, with the temporary that it defines. An exception defines none. -/
inductive Step (f : Function) (raises : BlockId → ℕ → Prop) : Site → Option Value → Site → Prop where
  | next {id index handlers block inst} : f.block? id = some block →
    block.insts[index]? = some inst →
    Step f raises ⟨id, index, handlers⟩ (some inst.result)
      ⟨id, index + 1, stackAfter inst.kind handlers⟩
  | jump {id handlers block target} : f.block? id = some block → target ∈ successors block.term →
    Step f raises ⟨id, block.insts.length, handlers⟩ none ⟨target, 0, handlers⟩
  | raise {id index handlers block target} : f.block? id = some block →
    index ≤ block.insts.length → raises id index → handlers.getLast? = some target →
    Step f raises ⟨id, index, handlers⟩ none ⟨target, 0, handlers⟩

section Paths

variable (f : Function) (raises : BlockId → ℕ → Prop)

def IsStart (s : Site) : Prop := ∃ block ∈ f.blocks.head?, s = ⟨block.id, 0, []⟩

def Moves (s t : Site) : Prop := ∃ defined, Step f raises s defined t

/-- A step that does not define a temporary. -/
def Keeps (value : Value) (s t : Site) : Prop :=
  ∃ defined, Step f raises s defined t ∧ defined ≠ some value

/-- The instruction or the terminator at a place reads a temporary. -/
def Reads (s : Site) (value : Value) : Prop :=
  ∃ block, f.block? s.block = some block ∧
    ((∃ inst, block.insts[s.index]? = some inst ∧ value ∈ inst.kind.operands) ∨
      s.index = block.insts.length ∧ value ∈ block.term.operands)

/-- `FunctionSetAnnotate` or `MakeTypeAlias` stands at a place and reads a temporary. -/
def ReadsUnlisted (s : Site) (value : Value) : Prop :=
  ∃ block inst, f.block? s.block = some block ∧ block.insts[s.index]? = some inst ∧
    isUnlisted inst.kind = true ∧ value ∈ inst.kind.operands

def Reachable (s : Site) : Prop := ∃ start, IsStart f start ∧ ReflTransGen (Moves f raises) start s

/-- A temporary is defined on some path to a place. -/
def DefinedBefore (s : Site) (value : Value) : Prop :=
  ∃ t u, Reachable f raises t ∧ Step f raises t (some value) u ∧ ReflTransGen (Moves f raises) u s

/-- On some path after a place, something happens to a temporary before it is defined again. -/
def Later (event : Site → Value → Prop) (s : Site) (value : Value) : Prop :=
  ∃ t u, Keeps f raises value s t ∧ ReflTransGen (Keeps f raises value) t u ∧ event u value

/-- Static single assignment: a temporary has one definition, and every path to a place that reads it
passes the definition. -/
structure Ssa : Prop extends Function.WellFormed f where
  dominated : ∀ start s value, IsStart f start → ReflTransGen (Keeps f raises value) start s →
    ¬Reads f s value

/-- The windows hold every temporary that is defined before them and read after them. -/
def Covers (result : Option TempSpillPlan) : Prop :=
  ∀ s block value, f.block? s.block = some block → IsSpillPoint block s.index →
    DefinedBefore f raises s value → Later f raises (Reads f) s value →
    value ∈ windowSet result block s.index

/-- A temporary that `FunctionSetAnnotate` or `MakeTypeAlias` reads after a window is also read after it by
something else, where the end of a block also leads to the handlers that are active on entry to the
block or pushed in it. -/
def ReadElsewhere (entries : EntryStacks) : Prop :=
  ∀ s block value, f.block? s.block = some block → IsSpillPoint block s.index →
    DefinedBefore f raises s value → Later f raises (ReadsUnlisted f) s value →
    ReadAfter f entries block s.index value

end Paths

/-! ## Single definitions -/

section Ssa

variable {f : Function} {raises : BlockId → ℕ → Prop} {entries : EntryStacks}

variable {block : Block} {stack : List BlockId}

/-- A temporary is defined in one place. -/
theorem definition_unique (wf : f.WellFormed) {block' : Block} (mem : block ∈ f.blocks)
    (mem' : block' ∈ f.blocks) {index index' : ℕ} {inst inst' : Inst}
    (at_ : block.insts[index]? = some inst) (at' : block'.insts[index']? = some inst')
    (same : inst.result = inst'.result) : block = block' ∧ index = index' := by
  have single := wf.singleDefinition
  rw [Function.insts, List.map_flatMap, List.nodup_flatMap] at single
  obtain ⟨within, apart⟩ := single
  have here : inst.result ∈ block.insts.map (·.result) := List.mem_map_of_mem (List.mem_of_getElem? at_)
  have there : inst.result ∈ block'.insts.map (·.result) :=
    same ▸ List.mem_map_of_mem (List.mem_of_getElem? at')
  have blocks : block = block' := by
    obtain ⟨i, insideI, rfl⟩ := List.getElem_of_mem mem
    obtain ⟨j, insideJ, rfl⟩ := List.getElem_of_mem mem'
    rcases lt_trichotomy i j with before | rfl | after
    · exact absurd there (List.pairwise_iff_getElem.mp apart i j insideI insideJ before here)
    · rfl
    · exact absurd here (List.pairwise_iff_getElem.mp apart j i insideJ insideI after there)
  subst blocks
  refine ⟨rfl, ?_⟩
  have results := within block mem
  have left : (block.insts.map (·.result))[index]? = some inst.result := by
    rw [List.getElem?_map, at_, Option.map_some]
  have right : (block.insts.map (·.result))[index']? = some inst.result := by
    rw [List.getElem?_map, at', Option.map_some, same]
  exact (List.getElem?_inj (List.getElem?_eq_some_iff.mp left).1 results).mp (left.trans right.symm)

/-! ## The handlers of a reachable place -/

/-- The handlers of a place are those of the analysis, and each was entered with the stack below it. -/
structure Tracked (f : Function) (entries : EntryStacks) (s : Site) : Prop where
  closed : ∃ block stack, entries s.block = some stack ∧ ClosedAt f entries s.block stack block ∧
    s.index ≤ block.insts.length ∧ s.handlers = stackAt block.insts stack s.index
  nested : ∀ outer target, outer ++ [target] <+: s.handlers → entries target = some (outer ++ [target])

section

variable (consistent : Consistent f entries)
include consistent

theorem Tracked.of_entry {id : BlockId}
    (entry : entries id = some stack)
    (nested : ∀ outer target, outer ++ [target] <+: stack → entries target = some (outer ++ [target])) :
    Tracked f entries ⟨id, 0, stack⟩ := by
  obtain ⟨block, closed⟩ := consistent.closed id stack entry
  exact ⟨⟨block, stack, entry, closed, Nat.zero_le _, rfl⟩, nested⟩

theorem Tracked.step {s t : Site} {defined : Option Value}
    (tracked : Tracked f entries s) (step : Step f raises s defined t) : Tracked f entries t := by
  obtain ⟨⟨block, stack, entry, closed, inside, same⟩, nested⟩ := tracked
  cases step with
  | @next id index handlers block' inst found at_ =>
    obtain rfl := Option.some.inj (closed.found.symm.trans found)
    dsimp only at same nested
    refine ⟨⟨block, stack, entry, closed, (List.getElem?_eq_some_iff.mp at_).1, ?_⟩, ?_⟩
    · rw [stackAt_succ at_, ← same]
    · intro outer target below
      dsimp only at below
      unfold stackAfter at below
      split at below
      case h_1 pushed depth kind push =>
        rcases List.prefix_concat_iff.mp below with whole | below
        · obtain ⟨rfl, last⟩ := List.append_inj' whole rfl
          obtain rfl := List.singleton_inj.mp last
          rw [same]
          exact closed.pushed index inst _ depth kind at_ push
        · exact nested outer target below
      case h_2 => exact nested outer target (below.trans (List.dropLast_prefix _))
      case h_3 => exact nested outer target below
  | @jump id handlers block' target found edge =>
    obtain rfl := Option.some.inj (closed.found.symm.trans found)
    dsimp only at same nested
    refine .of_entry consistent ?_ nested
    rw [same]
    exact closed.left target (successors_subset _ _ target edge)
  | @raise id index handlers block' target found _ _ innermost =>
    dsimp only at same nested
    obtain ⟨outer, rfl⟩ : ∃ outer, handlers = outer ++ [target] :=
      List.getLast?_eq_some_iff.mp innermost
    exact .of_entry consistent (nested outer target (List.prefix_refl _)) nested

theorem tracked_of_reachable {s : Site}
    (reachable : Reachable f raises s) : Tracked f entries s := by
  obtain ⟨start, ⟨block, first, rfl⟩, path⟩ := reachable
  induction path with
  | refl =>
    refine .of_entry consistent (consistent.start block first) fun outer target below ↦ ?_
    exact absurd (List.prefix_nil.mp below) (by simp)
  | tail _ step ih =>
    obtain ⟨defined, step⟩ := step
    exact ih.step consistent step

end

/-- A handler that is active in a block was active on entry to it, or the block pushes it. -/
theorem mem_stackAt {index : ℕ} {target : BlockId} (mem : target ∈ stackAt block.insts stack index) :
    target ∈ stack ∨ target ∈ pushedTargets block := by
  induction index with
  | zero => exact .inl mem
  | succ index ih =>
    cases at_ : block.insts[index]? with
    | none =>
      have same : stackAt block.insts stack (index + 1) = stackAt block.insts stack index := by
        rw [stackAt, List.take_add_one, at_, Option.toList_none, List.append_nil, stackAt]
      exact ih (same ▸ mem)
    | some inst =>
      rw [stackAt_succ at_] at mem
      rcases mem_of_mem_stackAfter mem with old | ⟨depth, kind, push⟩
      · exact ih old
      · exact .inr (mem_pushedTargets (List.mem_of_getElem? at_) push)

theorem mem_handlerTargets (entry : entries block.id = some stack) {target : BlockId} :
    target ∈ handlerTargets entries block ↔ target ∈ stack ∨ target ∈ pushedTargets block := by
  rw [handlerTargets, List.mem_dedup, List.mem_mergeSort, List.mem_append, entry, Option.getD_some]

/-! ## Paths that avoid a definition -/

section Avoid

variable {block : Block} {stack : List BlockId} {value : Value}

/-- There is a path from the start to a place that does not define a temporary. -/
def Avoids (f : Function) (raises : BlockId → ℕ → Prop) (value : Value) (s : Site) : Prop :=
  ∃ start, IsStart f start ∧ ReflTransGen (Keeps f raises value) start s

variable {s t u : Site}

theorem Avoids.tail (avoids : Avoids f raises value s) (step : Keeps f raises value s t) :
    Avoids f raises value t := by
  obtain ⟨start, isStart, path⟩ := avoids
  exact ⟨start, isStart, path.tail step⟩

theorem Reachable.step {defined : Option Value} (reachable : Reachable f raises s)
    (step : Step f raises s defined t) : Reachable f raises t := by
  obtain ⟨start, isStart, path⟩ := reachable
  exact ⟨start, isStart, path.tail ⟨defined, step⟩⟩

theorem block_mem {id : BlockId} (found : f.block? id = some block) : block ∈ f.blocks ∧ block.id = id :=
  ⟨List.mem_of_find?_eq_some found, by simpa using List.find?_some found⟩

/-- The block with the definition is first entered without it. -/
theorem avoids_entry (wf : f.WellFormed) (consistent : Consistent f entries)
    (found : f.block? block.id = some block) {index : ℕ} {inst : Inst}
    (defines : block.insts[index]? = some inst) (entry : entries block.id = some stack)
    (reachable : Reachable f raises s) (inBlock : s.block = block.id) :
    Avoids f raises inst.result ⟨block.id, 0, stack⟩ := by
  obtain ⟨start, ⟨first, isFirst, rfl⟩, path⟩ := reachable
  have entered : ∀ handlers, Reachable f raises ⟨block.id, 0, handlers⟩ → handlers = stack := by
    intro handlers reachable
    obtain ⟨⟨_, stack', entry', -, -, same⟩, -⟩ := tracked_of_reachable consistent reachable
    obtain rfl := Option.some.inj (entry.symm.trans entry')
    exact same
  suffices split : Avoids f raises inst.result ⟨block.id, 0, stack⟩ ∨
      s.block ≠ block.id ∧ Avoids f raises inst.result s from
    split.resolve_right fun h ↦ h.1 inBlock
  have isStart : IsStart f ⟨first.id, 0, []⟩ := ⟨first, isFirst, rfl⟩
  clear inBlock
  induction path with
  | refl =>
    by_cases same : first.id = block.id
    · left
      rw [same] at isStart
      obtain rfl := entered [] ⟨_, isStart, .refl⟩
      exact ⟨_, isStart, .refl⟩
    · exact .inr ⟨same, _, isStart, .refl⟩
  | @tail t u path last ih =>
    rcases ih with done | ⟨outside, avoids⟩
    · exact .inl done
    obtain ⟨defined, step⟩ := last
    have reached : Reachable f raises u := Reachable.step ⟨_, isStart, path⟩ step
    have target : ∀ id handlers, u = ⟨id, 0, handlers⟩ → Keeps f raises inst.result t u →
        Avoids f raises inst.result ⟨block.id, 0, stack⟩ ∨
          u.block ≠ block.id ∧ Avoids f raises inst.result u := by
      rintro id handlers rfl keeps
      by_cases same : id = block.id
      · left
        subst same
        obtain rfl := entered handlers reached
        exact avoids.tail keeps
      · exact .inr ⟨same, avoids.tail keeps⟩
    cases step with
    | @next id index' handlers block' inst' found' at' =>
      have other : inst'.result ≠ inst.result := fun same ↦ by
        obtain ⟨mem', id'⟩ := block_mem found'
        obtain ⟨rfl, -⟩ := definition_unique wf mem' (block_mem found).1 at' defines same
        exact outside id'.symm
      exact .inr ⟨outside, avoids.tail ⟨_, .next found' at', fun h ↦ other (Option.some.inj h)⟩⟩
    | jump found' edge => exact target _ _ rfl ⟨_, .jump found' edge, nofun⟩
    | raise found' inside raised innermost =>
      exact target _ _ rfl ⟨_, .raise found' inside raised innermost, nofun⟩

/-- Before the definition, the block is run through without it. -/
theorem avoids_within (wf : f.WellFormed) (found : f.block? block.id = some block) {index : ℕ}
    {inst : Inst} (defines : block.insts[index]? = some inst)
    (entry : Avoids f raises inst.result ⟨block.id, 0, stack⟩) {place : ℕ} (before : place ≤ index) :
    Avoids f raises inst.result ⟨block.id, place, stackAt block.insts stack place⟩ := by
  induction place with
  | zero => exact entry
  | succ place ih =>
    have inside : place < block.insts.length := before.trans (List.getElem?_eq_some_iff.mp defines).1.le
    have at_ := List.getElem?_eq_getElem inside
    have other : block.insts[place].result ≠ inst.result := fun same ↦ by
      have member := (block_mem found).1
      obtain ⟨-, rfl⟩ := definition_unique wf member member at_ defines same
      exact absurd before (Nat.not_succ_le_self place)
    rw [stackAt_succ at_]
    exact (ih (Nat.le_of_succ_le before)).tail ⟨_, .next found at_, fun h ↦ other (Option.some.inj h)⟩

/-- A temporary that a handler leads to a read of is not defined behind the exception. -/
theorem passes_of_raise (ssa : Ssa f raises) (consistent : Consistent f entries)
    (reachable : Reachable f raises s) (found : f.block? s.block = some block)
    (raise : Step f raises s none t) (path : ReflTransGen (Keeps f raises value) t u)
    (reads : Reads f u value) : Passes value (block.insts.drop s.index) := by
  intro inst mem
  rintro rfl
  obtain ⟨offset, inside, rfl⟩ := List.getElem_of_mem mem
  have defines : block.insts[s.index + offset]? = some ((block.insts.drop s.index)[offset]) := by
    rw [← List.getElem?_drop]
    exact List.getElem?_eq_getElem inside
  obtain ⟨⟨block', stack, entry, closed, -, same⟩, -⟩ := tracked_of_reachable consistent reachable
  obtain rfl := Option.some.inj (found.symm.trans closed.found)
  obtain ⟨-, isBlock⟩ := block_mem found
  rw [← isBlock] at found entry
  have first := avoids_entry ssa.toWellFormed consistent found defines entry reachable isBlock.symm
  have here := avoids_within ssa.toWellFormed found defines first (Nat.le_add_right s.index offset)
  rw [← same, isBlock] at here
  obtain ⟨start, isStart, before⟩ := here.tail ⟨none, raise, nofun⟩
  exact ssa.dominated start u _ isStart (before.trans path) reads

/-- The end of a block leads where its steps do. -/
theorem edge_of_step (consistent : Consistent f entries) (reachable : Reachable f raises s)
    (found : f.block? s.block = some block) (step : Step f raises s none t) :
    t.index = 0 ∧ (t.block ∈ successors block.term ∨ t.block ∈ handlerTargets entries block) := by
  have tracked := tracked_of_reachable consistent reachable
  cases step with
  | jump found' edge =>
    obtain rfl := Option.some.inj (found.symm.trans found')
    exact ⟨rfl, .inl edge⟩
  | @raise id index handlers block' target found' _ _ innermost =>
    obtain ⟨⟨block'', stack, entry, closed, -, same⟩, -⟩ := tracked
    obtain rfl := Option.some.inj (found.symm.trans closed.found)
    dsimp only at entry same
    have isBlock : block.id = id := (block_mem found).2
    rw [same] at innermost
    rw [← isBlock] at entry
    exact ⟨rfl, .inr ((mem_handlerTargets entry).mpr (mem_stackAt (List.mem_of_getLast? innermost)))⟩

variable (ssa : Ssa f raises) (consistent : Consistent f entries) (reachable : Reachable f raises s)
include ssa consistent reachable

/-- A step that defines nothing leads from the end of the block, or raises within it. -/
theorem readFrom_of_edge (found : f.block? s.block = some block)
    (step : Step f raises s none t) (path : ReflTransGen (Keeps f raises value) t u)
    (reads : Reads f u value) (read : ReadFrom f entries t.block t.index value) :
    Passes value (block.insts.drop s.index) ∧ ReadFrom f entries s.block block.insts.length value := by
  obtain ⟨zero, edge⟩ := edge_of_step consistent reachable found step
  rw [zero] at read
  exact ⟨passes_of_raise ssa consistent reachable found step path reads, .edge found edge read⟩

/-- What is read on a path by an instruction whose operands are listed, or by a terminator. -/
theorem readFrom_of_path (path : ReflTransGen (Keeps f raises value) s u)
    (reads : Reads f u value) (listed : ¬ReadsUnlisted f u value) :
    ReadFrom f entries s.block s.index value := by
  induction path using ReflTransGen.head_induction_on with
  | refl =>
    obtain ⟨block, found, ⟨inst, at_, mem⟩ | ⟨atEnd, mem⟩⟩ := reads
    · refine .inst found at_ ?_ mem
      rw [← Bool.not_eq_true]
      exact fun unlisted ↦ listed ⟨block, inst, found, at_, unlisted, mem⟩
    · rw [atEnd]
      exact .term found mem
  | @head s t keeps path ih =>
    obtain ⟨defined, step, kept⟩ := keeps
    have read := ih (reachable.step step)
    obtain ⟨⟨block, stack, entry, closed, inside, same⟩, -⟩ := tracked_of_reachable consistent reachable
    cases defined with
    | none =>
      obtain ⟨passes, atEnd⟩ := readFrom_of_edge ssa consistent reachable closed.found step path reads
        read
      exact readFrom_of_passes closed.found inside passes atEnd
    | some result =>
      cases step with
      | next found at_ => exact .next found at_ (fun h ↦ kept (congrArg some h)) read

/-- What is read after a window by an instruction whose operands are listed, or by a terminator. -/
theorem readAfter_of_later (found : f.block? s.block = some block)
    (later : Later f raises (fun u value ↦ Reads f u value ∧ ¬ReadsUnlisted f u value) s value) :
    ReadAfter f entries block s.index value := by
  obtain ⟨t, u, ⟨defined, step, kept⟩, path, reads, listed⟩ := later
  have read := readFrom_of_path ssa consistent (reachable.step step) path reads listed
  obtain ⟨-, isBlock⟩ := block_mem found
  rw [ReadAfter, isBlock]
  cases defined with
  | some result =>
    cases step with
    | next found' at_ =>
      obtain rfl := Option.some.inj (found.symm.trans found')
      exact .inl ⟨_, at_, fun h ↦ kept (congrArg some h), read⟩
  | none =>
    obtain ⟨passes, atEnd⟩ := readFrom_of_edge ssa consistent reachable found step path reads read
    obtain ⟨⟨block', stack, entry, closed, inside, same⟩, -⟩ := tracked_of_reachable consistent reachable
    obtain rfl := Option.some.inj (found.symm.trans closed.found)
    rcases inside.lt_or_eq with more | atLast
    · have at_ := List.getElem?_eq_getElem more
      rw [List.drop_eq_getElem_cons more] at passes
      obtain ⟨kept, passes⟩ := List.forall_mem_cons.mp passes
      exact .inl ⟨_, at_, kept, readFrom_of_passes found more passes atEnd⟩
    · obtain ⟨zero, edge⟩ := edge_of_step consistent reachable found step
      rw [zero] at read
      exact .inr ⟨atLast, t.block, edge, read⟩

end Avoid

/-! ## Coverage -/

/-- The computation of a plan ends, with an error or with a plan. In static single assignment form the
windows of the plan hold every temporary that is read after them exactly if what
`FunctionSetAnnotate` and `MakeTypeAlias` read after a window is also read elsewhere after it. -/
theorem compute_covers_iff (ssa : Ssa f raises) : ∃ bound, ∀ fuel, bound ≤ fuel →
    (∃ message, compute f fuel = some (.error message)) ∨
      ∃ result, compute f fuel = some (.ok result) ∧
        (Covers f raises result ↔ ∀ entries,
          blockExceptionEntryStacks f fuel = some (.ok entries) → ReadElsewhere f raises entries) := by
  obtain ⟨bound, computed⟩ := compute_spec f
  refine ⟨bound, fun fuel enough ↦ ?_⟩
  rcases computed fuel enough with failed | ⟨result, done, sets⟩
  · exact .inl failed
  refine .inr ⟨result, done, ?_⟩
  cases sites : hasSites f with
  | false =>
    have pointless : ∀ {id block index}, f.block? id = some block → ¬IsSpillPoint block index :=
      fun found ↦ not_isSpillPoint sites (block_mem found).1
    exact ⟨fun _ _ _ _ _ _ found point ↦ absurd point (pointless found),
      fun _ _ _ _ found point ↦ absurd point (pointless found)⟩
  | true =>
    obtain ⟨entries, walked, consistent, windows⟩ := sets sites
    have window : ∀ {s : Site} {block value}, f.block? s.block = some block →
        IsSpillPoint block s.index →
        (value ∈ windowSet result block s.index ↔ ReadAfter f entries block s.index value) := by
      intro s block value found point
      obtain ⟨member, isBlock⟩ := block_mem found
      exact windows block member (by rwa [isBlock]) s.index value point
    constructor
    · intro covers entries' walked' s block value found point defined later
      obtain rfl := Except.ok.inj (Option.some.inj (walked.symm.trans walked'))
      refine (window found point).mp (covers s block value found point defined ?_)
      obtain ⟨t, u, first, path, block', inst, found', at_, -, mem⟩ := later
      exact ⟨t, u, first, path, block', found', .inl ⟨inst, at_, mem⟩⟩
    · intro elsewhere s block value found point defined later
      refine (window found point).mpr ?_
      obtain ⟨t, u, first, path, reads⟩ := later
      by_cases unlisted : ReadsUnlisted f u value
      · exact elsewhere entries walked s block value found point defined ⟨t, u, first, path, unlisted⟩
      · obtain ⟨_, _, reached, step, between⟩ := defined
        obtain ⟨start, isStart, before⟩ := reached.step step
        exact readAfter_of_later ssa consistent ⟨start, isStart, before.trans between⟩ found
          ⟨t, u, first, path, reads, unlisted⟩

end Ssa

/-! ## An annotated definition -/

/-- A block without successors and handlers whose operands are defined before they are read. -/
structure IsStraightLine (block : Block) : Prop where
  leaves : successors block.term = []
  unguarded : pushedTargets block = []
  single : (block.insts.map (·.result)).Nodup
  insts : ∀ (index : ℕ) (inside : index < block.insts.length),
    ∀ value ∈ (block.insts[index]).kind.operands, value ∈ (block.insts.take index).map (·.result)
  term : ∀ value ∈ block.term.operands, value ∈ block.insts.map (·.result)

theorem IsStraightLine.ssa {block : Block} (straight : IsStraightLine block)
    (raises : BlockId → ℕ → Prop) : Ssa { blocks := [block] } raises := by
  have found : ∀ {id block'}, Function.block? { blocks := [block] } id = some block' →
      block' = block := fun found ↦ List.mem_singleton.mp (List.mem_of_find?_eq_some found)
  refine ⟨⟨List.nodup_singleton _, ?_⟩, ?_⟩
  · rw [Function.insts, List.flatMap_singleton]
    exact straight.single
  · rintro _ s value ⟨first, isFirst, rfl⟩ path ⟨block', isBlock, reads⟩
    obtain rfl := found isBlock
    -- No instruction that the path has passed defines the value, and no handler is active.
    have passed : s.handlers = [] ∧ value ∉ (block'.insts.take s.index).map (·.result) := by
      clear reads
      induction path with
      | refl => exact ⟨rfl, by simp⟩
      | tail _ last ih =>
        obtain ⟨defined, step, kept⟩ := last
        cases step with
        | @next id index handlers other inst found' at_ =>
          obtain rfl := found found'
          obtain ⟨none, before⟩ := ih found'
          dsimp only at none before
          refine ⟨?_, ?_⟩
          · have calm : ∀ target depth kind, inst.kind ≠ .pushExcInfo target depth kind :=
              fun target depth kind push ↦ by
                have pushed := mem_pushedTargets (List.mem_of_getElem? at_) push
                rw [straight.unguarded] at pushed
                cases pushed
            rw [none]
            unfold stackAfter
            split
            case h_1 target depth kind push => exact absurd push (calm target depth kind)
            all_goals rfl
          · rw [List.take_add_one, at_, List.map_append, List.mem_append, not_or]
            refine ⟨before, ?_⟩
            rw [Option.toList_some, List.map_singleton, List.mem_singleton]
            exact fun same ↦ kept (congrArg some same.symm)
        | jump found' edge =>
          obtain rfl := found found'
          rw [straight.leaves] at edge
          cases edge
        | @raise id index handlers other target found' _ _ innermost =>
          obtain rfl := found found'
          obtain ⟨none, -⟩ := ih found'
          dsimp only at none
          rw [none] at innermost
          cases innermost
    rcases reads with ⟨inst, at_, mem⟩ | ⟨atEnd, mem⟩
    · obtain ⟨inside, rfl⟩ := List.getElem?_eq_some_iff.mp at_
      exact passed.2 (straight.insts s.index inside value mem)
    · have all := passed.2
      rw [atEnd, List.take_length] at all
      exact all (straight.term value mem)

/-- `def f(a: int, b=g()): ...`: the annotation function is made before the default is evaluated. -/
def annotatedBlock : Block where
  id := 0
  insts := [
    { result := 0, kind := .makeFunctionFull 1 [] [] [] [] },
    { result := 1, kind := .loadGlobal "g" },
    { result := 2, kind := .call 1 [] },
    { result := 3, kind := .makeFunctionFull 2 [2] [] [] [] },
    { result := 4, kind := .functionSetAnnotate 3 0 }]
  term := .ret 3

theorem annotatedBlock_isStraightLine : IsStraightLine annotatedBlock where
  leaves := rfl
  unguarded := rfl
  single := by decide
  insts := by decide
  term := by decide

theorem compute_covers_iff_annotated : ∃ bound, ∀ fuel, bound ≤ fuel →
    (∃ message, compute { blocks := [annotatedBlock] } fuel = some (.error message)) ∨
      ∃ result, compute { blocks := [annotatedBlock] } fuel = some (.ok result) ∧
        (Covers { blocks := [annotatedBlock] } (fun _ _ ↦ True) result ↔ ∀ entries,
          blockExceptionEntryStacks { blocks := [annotatedBlock] } fuel = some (.ok entries) →
            ReadElsewhere { blocks := [annotatedBlock] } (fun _ _ ↦ True) entries) :=
  compute_covers_iff (annotatedBlock_isStraightLine.ssa _)

/-- The annotation function is not rooted while the default is evaluated. -/
theorem annotation_not_rooted : Ssa { blocks := [annotatedBlock] } (fun _ _ ↦ True) ∧
    ∃ result, compute { blocks := [annotatedBlock] } 3 = some (.ok result) ∧
      ¬Covers { blocks := [annotatedBlock] } (fun _ _ ↦ True) result := by
  refine ⟨annotatedBlock_isStraightLine.ssa _, none, ?_, fun covers ↦ ?_⟩
  · have empty : (compute { blocks := [annotatedBlock] } 3).map
        (fun result ↦ result.toOption.map Option.isNone) = some (some true) := by decide +kernel
    obtain ⟨result, computed, isNone⟩ := Option.map_eq_some_iff.mp empty
    obtain ⟨plan, ok, none⟩ := Option.map_eq_some_iff.mp isNone
    rw [computed]
    cases result with
    | error message => cases ok
    | ok plan' =>
      obtain rfl := Option.some.inj ok
      rw [Option.isNone_iff_eq_none.mp none]
  · have next : ∀ index handlers inst, annotatedBlock.insts[index]? = some inst →
        Step { blocks := [annotatedBlock] } (fun _ _ ↦ True) ⟨0, index, handlers⟩ (some inst.result)
          ⟨0, index + 1, stackAfter inst.kind handlers⟩ := fun _ _ _ at_ ↦ .next rfl at_
    have defined : DefinedBefore { blocks := [annotatedBlock] } (fun _ _ ↦ True) ⟨0, 2, []⟩ 0 :=
      ⟨⟨0, 0, []⟩, ⟨0, 1, []⟩, ⟨_, ⟨annotatedBlock, rfl, rfl⟩, .refl⟩, next 0 [] _ rfl,
        .single ⟨_, next 1 [] _ rfl⟩⟩
    have later : Later { blocks := [annotatedBlock] } (fun _ _ ↦ True)
        (Reads { blocks := [annotatedBlock] }) ⟨0, 2, []⟩ 0 :=
      ⟨⟨0, 3, []⟩, ⟨0, 4, []⟩, ⟨_, next 2 [] _ rfl, by decide⟩,
        .single ⟨_, next 3 [] _ rfl, by decide⟩,
        annotatedBlock, rfl, .inl ⟨_, rfl, by decide⟩⟩
    exact absurd (covers ⟨0, 2, []⟩ annotatedBlock 0 rfl (.inl ⟨_, rfl, rfl⟩) defined later) (by decide)

end Pon.Codegen.Spill
