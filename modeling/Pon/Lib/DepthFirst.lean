import Mathlib.Data.List.Nodup
import Mathlib.Logic.Relation

/-!
# Depth-first orders

A depth-first walk of a graph that lists a node after everything below it. A node that is met again
while it is being visited is passed over, so a cycle is cut at the node where the walk has entered it.
Every node that lies on no cycle comes after all its successors.
-/

namespace Pon.DepthFirst

variable {α : Type*}

/-- The nodes of the current path, the finished nodes, and the finished nodes in order. -/
structure Walk (α : Type*) where
  visiting : List α
  visited : List α
  ordered : List α

namespace Walk

def start : Walk α := ⟨[], [], []⟩

def enter (walk : Walk α) (node : α) : Walk α := { walk with visiting := node :: walk.visiting }

def leave [DecidableEq α] (walk : Walk α) (node : α) : Walk α where
  visiting := walk.visiting.erase node
  visited := node :: walk.visited
  ordered := walk.ordered ++ [node]

end Walk

/-- The finished nodes are listed once, and none of them is on the current path. -/
structure Walk.Ok (walk : Walk α) : Prop where
  nodup : walk.ordered.Nodup
  mem_ordered : ∀ node, node ∈ walk.ordered ↔ node ∈ walk.visited
  apart : ∀ node ∈ walk.visiting, node ∉ walk.visited

theorem Walk.ok_start : (start : Walk α).Ok where
  nodup := List.nodup_nil
  mem_ordered _ := Iff.rfl
  apart _ mem := absurd mem List.not_mem_nil

theorem Walk.Ok.enter {walk : Walk α} (ok : walk.Ok) {node : α} (unfinished : node ∉ walk.visited) :
    (walk.enter node).Ok := { ok with apart := List.forall_mem_cons.mpr ⟨unfinished, ok.apart⟩ }

section Visits

variable [DecidableEq α] (succ : α → List α)

/-- The walk visits nodes one after the other, and the successors of a new node in between. -/
inductive Visits : List α → Walk α → Walk α → Prop where
  | done {walk : Walk α} : Visits [] walk walk
  | visited {node : α} {rest : List α} {walk after : Walk α} (finished : node ∈ walk.visited)
      (next : Visits rest walk after) : Visits (node :: rest) walk after
  | visiting {node : α} {rest : List α} {walk after : Walk α} (unfinished : node ∉ walk.visited)
      (onPath : node ∈ walk.visiting) (next : Visits rest walk after) :
      Visits (node :: rest) walk after
  | visit {node : α} {rest : List α} {walk inner after : Walk α} (unfinished : node ∉ walk.visited)
      (offPath : node ∉ walk.visiting) (below : Visits (succ node) (walk.enter node) inner)
      (next : Visits rest (inner.leave node) after) : Visits (node :: rest) walk after

/-- A successor of a node. -/
def Edge (node other : α) : Prop := other ∈ succ node

def OnCycle (node : α) : Prop := Relation.TransGen (Edge succ) node node

variable {succ}

variable {walk after : Walk α} {node : α} {nodes : List α}

theorem Visits.append {front back : List α} {middle : Walk α}
    (first : Visits succ front walk middle) (second : Visits succ back middle after) :
    Visits succ (front ++ back) walk after := by
  induction first with
  | done => exact second
  | visited finished _ ih => exact .visited finished (ih second)
  | visiting unfinished onPath _ ih => exact .visiting unfinished onPath (ih second)
  | visit unfinished offPath below _ _ ih => exact .visit unfinished offPath below (ih second)

theorem Walk.Ok.leave (ok : walk.Ok) {path : List α} (onPath : walk.visiting = node :: path)
    (offPath : node ∉ path) : (walk.leave node).Ok := by
  have unfinished : node ∉ walk.visited := ok.apart node (by rw [onPath]; exact List.mem_cons_self)
  refine ⟨?_, fun other ↦ ?_, fun other mem ↦ ?_⟩
  · refine ok.nodup.append (List.nodup_singleton node) ?_
    intro other listed isNode
    rw [List.mem_singleton.mp isNode, ok.mem_ordered] at listed
    exact unfinished listed
  · simp [Walk.leave, ok.mem_ordered, or_comm]
  · rw [Walk.leave, onPath, List.erase_cons_head] at mem
    have older : other ∈ walk.visiting := by
      rw [onPath]
      exact List.mem_cons_of_mem node mem
    have isOther : other ≠ node := by
      intro same
      exact offPath (same ▸ mem)
    exact List.not_mem_cons_of_ne_of_not_mem isOther (ok.apart other older)

/-- A walk comes back to its path, keeps what is finished, and finishes the nodes off its path. -/
structure Extends (nodes : List α) (walk after : Walk α) : Prop where
  ok : after.Ok
  visiting : after.visiting = walk.visiting
  mono : ∃ more, after.ordered = walk.ordered ++ more
  finished : ∀ node ∈ nodes, node ∈ after.visited ∨ node ∈ after.visiting

theorem Visits.extends (h : Visits succ nodes walk after) (ok : walk.Ok) :
    Extends nodes walk after := by
  induction h with
  | done => exact ⟨ok, rfl, ⟨[], (List.append_nil _).symm⟩, fun _ mem ↦ absurd mem List.not_mem_nil⟩
  | visited finished _ ih =>
    obtain ⟨okAfter, visiting, ⟨more, grown⟩, rest⟩ := ih ok
    refine ⟨okAfter, visiting, ⟨more, grown⟩, List.forall_mem_cons.mpr ⟨Or.inl ?_, rest⟩⟩
    rw [← okAfter.mem_ordered, grown]
    exact List.mem_append_left _ ((ok.mem_ordered _).mpr finished)
  | visiting _ onPath _ ih =>
    obtain ⟨okAfter, visiting, grown, rest⟩ := ih ok
    exact ⟨okAfter, visiting, grown, List.forall_mem_cons.mpr ⟨Or.inr (visiting ▸ onPath), rest⟩⟩
  | @visit node _ walk inner _ unfinished offPath _ _ ihBelow ih =>
    obtain ⟨okInner, innerVisiting, ⟨listed, innerGrown⟩, -⟩ := ihBelow (ok.enter unfinished)
    obtain ⟨okAfter, visiting, ⟨more, grown⟩, rest⟩ := ih (okInner.leave innerVisiting offPath)
    have back : (inner.leave node).visiting = walk.visiting := by
      rw [Walk.leave, innerVisiting, Walk.enter, List.erase_cons_head]
    refine ⟨okAfter, visiting.trans back, ⟨listed ++ [node] ++ more, ?_⟩,
      List.forall_mem_cons.mpr ⟨Or.inl ?_, rest⟩⟩
    · rw [grown, Walk.leave, innerGrown, Walk.enter]
      simp only [List.append_assoc]
    · rw [← okAfter.mem_ordered, grown, Walk.leave]
      simp

/-- What a walk finishes lies below the nodes that it visits. -/
theorem Visits.reached (h : Visits succ nodes walk after) :
    ∀ other ∈ after.visited, other ∈ walk.visited ∨
      ∃ node ∈ nodes, Relation.ReflTransGen (Edge succ) node other := by
  induction h with
  | done => exact fun _ mem ↦ Or.inl mem
  | visited _ _ ih | visiting _ _ _ ih =>
    intro other mem
    obtain left | ⟨node, inRest, path⟩ := ih other mem
    · exact Or.inl left
    · exact Or.inr ⟨node, List.mem_cons_of_mem _ inRest, path⟩
  | @visit node _ _ _ _ _ _ _ _ ihBelow ih =>
    intro other mem
    obtain left | ⟨first, inRest, path⟩ := ih other mem
    · obtain rfl | older := List.mem_cons.mp left
      · exact Or.inr ⟨other, List.mem_cons_self, .refl⟩
      · obtain left | ⟨next, isNext, path⟩ := ihBelow other older
        · exact Or.inl left
        · exact Or.inr ⟨node, List.mem_cons_self, .head isNext path⟩
    · exact Or.inr ⟨first, List.mem_cons_of_mem _ inRest, path⟩

/-- The successors of a finished node are finished or on the path. -/
def Walk.Closed (succ : α → List α) (walk : Walk α) : Prop :=
  ∀ node ∈ walk.visited, ∀ other ∈ succ node, other ∈ walk.visited ∨ other ∈ walk.visiting

omit [DecidableEq α] in
theorem Walk.Closed.enter (closed : walk.Closed succ) (node : α) : (walk.enter node).Closed succ :=
  fun other mem next isNext ↦ (closed other mem next isNext).imp_right (List.mem_cons_of_mem node)

theorem Walk.Closed.leave (closed : walk.Closed succ) {path : List α}
    (onPath : walk.visiting = node :: path)
    (below : ∀ other ∈ succ node, other ∈ walk.visited ∨ other ∈ walk.visiting) :
    (walk.leave node).Closed succ := by
  have settled : ∀ other, other ∈ walk.visited ∨ other ∈ walk.visiting →
      other ∈ (walk.leave node).visited ∨ other ∈ (walk.leave node).visiting := by
    intro other place
    rw [Walk.leave, onPath, List.erase_cons_head]
    obtain finished | mem := place
    · exact Or.inl (List.mem_cons_of_mem node finished)
    · rw [onPath] at mem
      obtain rfl | mem := List.mem_cons.mp mem
      · exact Or.inl List.mem_cons_self
      · exact Or.inr mem
  intro older mem other isNext
  apply settled
  obtain rfl | mem := List.mem_cons.mp mem
  · exact below other isNext
  · exact closed older mem other isNext

theorem Visits.closed (h : Visits succ nodes walk after) (ok : walk.Ok) (closed : walk.Closed succ) :
    after.Closed succ := by
  induction h with
  | done => exact closed
  | visited _ _ ih | visiting _ _ _ ih => exact ih ok closed
  | @visit node _ _ _ _ unfinished offPath below _ ihBelow ih =>
    have ext := below.extends (ok.enter unfinished)
    refine ih (ext.ok.leave ext.visiting offPath) ?_
    exact (ihBelow (ok.enter unfinished) (closed.enter node)).leave ext.visiting ext.finished

/-- A walk from the start lists the nodes below those that it visits. -/
theorem Visits.mem_ordered (h : Visits succ nodes .start after) (other : α) :
    other ∈ after.ordered ↔ ∃ node ∈ nodes, Relation.ReflTransGen (Edge succ) node other := by
  have ext := h.extends Walk.ok_start
  have offPath : ∀ node, node ∉ after.visiting := by
    intro node
    rw [ext.visiting]
    exact List.not_mem_nil
  rw [ext.ok.mem_ordered]
  constructor
  · intro finished
    exact (h.reached other finished).resolve_left List.not_mem_nil
  · intro below
    obtain ⟨node, isNode, path⟩ := below
    have closed := h.closed Walk.ok_start fun _ mem ↦ absurd mem List.not_mem_nil
    induction path with
    | refl => exact (ext.finished node isNode).resolve_right (offPath node)
    | tail _ next ih => exact (closed _ ih _ next).resolve_right (offPath _)

/-- A finished node that lies on no cycle comes after its successors. -/
def Walk.Placed (succ : α → List α) (walk : Walk α) : Prop :=
  ∀ node ∈ walk.ordered, ¬OnCycle succ node → ∀ other ∈ succ node,
    ∃ front back, walk.ordered = front ++ node :: back ∧ other ∈ front

theorem Walk.Placed.leave (placed : walk.Placed succ)
    (below : ¬OnCycle succ node → ∀ other ∈ succ node, other ∈ walk.ordered) :
    (walk.leave node).Placed succ := by
  intro late listed offCycle other isNext
  obtain earlier | isLast := List.mem_append.mp listed
  · obtain ⟨front, back, split, mem⟩ := placed late earlier offCycle other isNext
    refine ⟨front, back ++ [node], ?_, mem⟩
    rw [Walk.leave, split, List.append_assoc, List.cons_append]
  · obtain rfl := List.mem_singleton.mp isLast
    exact ⟨walk.ordered, [], rfl, below offCycle other isNext⟩

theorem Visits.placed (h : Visits succ nodes walk after) (ok : walk.Ok)
    (path : ∀ node ∈ walk.visiting, ∀ other ∈ nodes, Relation.TransGen (Edge succ) node other)
    (placed : walk.Placed succ) : after.Placed succ := by
  induction h with
  | done => exact placed
  | visited _ _ ih | visiting _ _ _ ih =>
    exact ih ok (fun node onPath other mem ↦ path node onPath other (List.mem_cons_of_mem _ mem)) placed
  | @visit node rest walk inner after unfinished offPath below next ihBelow ih =>
    have ext := below.extends (ok.enter unfinished)
    have pathBelow : ∀ older ∈ (walk.enter node).visiting, ∀ other ∈ succ node,
        Relation.TransGen (Edge succ) older other := by
      intro older onPath other isNext
      obtain rfl | onPath := List.mem_cons.mp onPath
      · exact .single isNext
      · exact .tail (path older onPath node List.mem_cons_self) isNext
    have placedBelow := ihBelow (ok.enter unfinished) pathBelow placed
    have back : (inner.leave node).visiting = walk.visiting := by
      rw [Walk.leave, ext.visiting, Walk.enter, List.erase_cons_head]
    refine ih (ext.ok.leave ext.visiting offPath) ?_ (placedBelow.leave ?_)
    · rw [back]
      exact fun older onPath other mem ↦ path older onPath other (List.mem_cons_of_mem _ mem)
    · intro offCycle other isNext
      rw [ext.ok.mem_ordered]
      -- A successor on the path closes a cycle through the node.
      refine (ext.finished other isNext).resolve_right fun onPath ↦ offCycle ?_
      rw [ext.visiting] at onPath
      obtain rfl | onPath := List.mem_cons.mp onPath
      · exact .single isNext
      · exact .head isNext (path other onPath node List.mem_cons_self)

end Visits

end Pon.DepthFirst
