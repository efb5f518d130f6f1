import Mathlib.Data.Char
import Mathlib.Data.List.Lex
import Pon.Lib.DepthFirst
import Pon.Lib.OrderedMap
import Pon.Resolve.Resolution

/-!
# Install order

The search for the install order is a depth-first walk of the dependency graph. It ends for every
graph, whatever its cycles, and lists the selected packages and the packages outside the selection that
they depend on. A package that lies on no cycle comes after its dependencies. The order is one of the
graph, which is kept sorted, and not of the way in which it was filled.
-/

namespace Pon.Resolve

open Package DepthFirst

/-- The dependencies of a name; a name outside the graph has none. -/
def Graph.dependencies (graph : Graph) (name : PackageName) : List PackageName :=
  (lookupEntry graph name).getD []

/-- A sorted set of names. -/
def nameSet (names : List PackageName) : List PackageName :=
  names.foldl (fun set name ↦ insertName name set) []

/-- The map after its entries have been inserted in turn. -/
def Graph.fill (entries : List (PackageName × List PackageName)) : Graph :=
  entries.foldl (fun graph entry ↦ insertEntry entry.1 (nameSet entry.2) graph) []

/-- The dependencies that the entries give a name last. -/
def lastEntry (entries : List (PackageName × List PackageName)) (name : PackageName) :
    Option (List PackageName) :=
  lookupEntry entries.reverse name

variable {name : PackageName} {graph : Graph} {set : List PackageName}

theorem mem_insertName {other : PackageName} :
    other ∈ insertName name set ↔ other = name ∨ other ∈ set := by
  induction set with
  | nil => simp [insertName]
  | cons first rest ih =>
    unfold insertName
    split_ifs with same before
    · subst same
      simp
    · exact List.mem_cons
    · rw [List.mem_cons, ih, List.mem_cons, or_left_comm]

theorem sorted_insertName (name : PackageName)
    (sorted : set.Pairwise (· < ·)) : (insertName name set).Pairwise (· < ·) := by
  induction set with
  | nil => exact List.pairwise_singleton _ _
  | cons first rest ih =>
    obtain ⟨least, sortedRest⟩ := List.pairwise_cons.mp sorted
    unfold insertName
    split_ifs with same before
    · exact sorted
    · refine List.pairwise_cons.mpr ⟨fun other mem ↦ ?_, sorted⟩
      obtain rfl | mem := List.mem_cons.mp mem
      · exact before
      · exact lt_trans before (least other mem)
    · refine List.pairwise_cons.mpr ⟨fun other mem ↦ ?_, ih sortedRest⟩
      obtain rfl | mem := mem_insertName.mp mem
      · exact lt_of_le_of_ne (not_lt.mp before) same
      · exact least other mem

theorem nameSet_spec (names : List PackageName) :
    (nameSet names).Pairwise (· < ·) ∧ ∀ name, name ∈ nameSet names ↔ name ∈ names := by
  have filled : ∀ set : List PackageName, set.Pairwise (· < ·) →
      (names.foldl (fun set name ↦ insertName name set) set).Pairwise (· < ·) ∧
        ∀ name, name ∈ names.foldl (fun set name ↦ insertName name set) set ↔
          name ∈ set ∨ name ∈ names := by
    induction names with
    | nil => exact fun set sorted ↦ ⟨sorted, fun name ↦ by simp⟩
    | cons first rest ih =>
      intro set sorted
      obtain ⟨sorted, mem⟩ := ih (insertName first set) (sorted_insertName first sorted)
      refine ⟨sorted, fun name ↦ ?_⟩
      rw [List.foldl_cons, mem, mem_insertName, List.mem_cons, or_assoc, or_left_comm]
  obtain ⟨sorted, mem⟩ := filled [] List.Pairwise.nil
  exact ⟨sorted, fun name ↦ by simpa [nameSet] using mem name⟩

/-- Sets of names with the same members are equal. -/
theorem nameSet_eq {names names' : List PackageName} (h : ∀ name, name ∈ names ↔ name ∈ names') :
    nameSet names = nameSet names' := by
  obtain ⟨sorted, mem⟩ := nameSet_spec names
  obtain ⟨sorted', mem'⟩ := nameSet_spec names'
  have same : (nameSet names).Perm (nameSet names') := by
    refine (List.perm_ext_iff_of_nodup ?_ ?_).mpr fun name ↦ by rw [mem, mem', h]
    · exact sorted.imp fun before ↦ before.ne
    · exact sorted'.imp fun before ↦ before.ne
  exact same.eq_of_pairwise (fun _ _ _ _ before after ↦ absurd before after.asymm) sorted sorted'

theorem insertEntry_eq (name : PackageName) (value : List PackageName) (graph : Graph) :
    insertEntry name value graph = OrderedMap.insertEntry name value graph := by
  induction graph with
  | nil => rfl
  | cons first rest ih =>
    unfold insertEntry OrderedMap.insertEntry
    rw [ih]
    obtain before | rfl | after := lt_trichotomy name first.1
    · rw [if_neg before.ne', if_pos (show name.val < _ from before), if_pos before]
    · rw [if_pos rfl, if_neg (lt_irrefl _), if_neg (lt_irrefl _)]
    · rw [if_neg after.ne, if_neg (show ¬ name.val < _ from after.not_gt), if_neg after.not_gt,
        if_pos after]

variable (entries : List (PackageName × List PackageName))

theorem sorted_fill :
    (Graph.fill entries).Pairwise fun a b ↦ a.1 < b.1 := by
  have filled : ∀ graph : Graph, (graph.Pairwise fun a b ↦ a.1 < b.1) →
      (entries.foldl (fun graph entry ↦ insertEntry entry.1 (nameSet entry.2) graph) graph).Pairwise
        fun a b ↦ a.1 < b.1 := by
    induction entries with
    | nil => exact fun _ sorted ↦ sorted
    | cons first rest ih =>
      intro graph sorted
      refine ih _ ?_
      dsimp only
      rw [insertEntry_eq]
      exact OrderedMap.sorted_insertEntry _ _ sorted
  exact filled [] List.Pairwise.nil

/-- A filled graph holds the last entry of every name. -/
theorem lookup_fill (name : PackageName) :
    lookupEntry (Graph.fill entries) name = (lastEntry entries name).map nameSet := by
  rw [Graph.fill, lastEntry, ← List.foldr_reverse]
  induction entries.reverse with
  | nil => rfl
  | cons last front ih =>
    rw [List.foldr_cons, lookupEntry_insertEntry, ih]
    by_cases same : last.1 = name <;> simp [lookupEntry, same]

theorem mem_graph_iff (sorted : graph.Pairwise fun a b ↦ a.1 < b.1) (name : PackageName)
    (value : List PackageName) : (name, value) ∈ graph ↔ lookupEntry graph name = some value := by
  let map : OrderedMap PackageName (List PackageName) := ⟨graph, sorted⟩
  have found : map.get? name = lookupEntry graph name := by
    refine congrArg (Option.map Prod.snd) (congrArg (fun p ↦ graph.find? p) (funext fun entry ↦ ?_))
    exact decide_eq_decide.mpr Iff.rfl
  rw [← found]
  exact map.mem_entries

/-- Graphs are equal when their last entries name the same dependencies. -/
theorem fill_eq {entries entries' : List (PackageName × List PackageName)}
    (h : ∀ name, (lastEntry entries name).map nameSet = (lastEntry entries' name).map nameSet) :
    Graph.fill entries = Graph.fill entries' := by
  refine OrderedMap.entries_eq (sorted_fill entries) (sorted_fill entries') fun entry ↦ ?_
  rw [mem_graph_iff (sorted_fill entries) entry.1 entry.2,
    mem_graph_iff (sorted_fill entries') entry.1 entry.2, lookup_fill, lookup_fill, h]

def Visit.walk (visit : Visit) : Walk PackageName := ⟨visit.visiting, visit.visited, visit.ordered⟩

/-- The names of the graph that the current path has not entered. -/
def Graph.left (graph : Graph) (path : List PackageName) : List PackageName :=
  (graph.map Prod.fst).filter fun name ↦ name ∉ path

theorem Graph.left_enter {path : List PackageName} (isKey : name ∈ graph.map Prod.fst)
    (offPath : name ∉ path) :
    (graph.left (name :: path)).length < (graph.left path).length := by
  have fewer : graph.left (name :: path) = (graph.left path).filter fun other ↦ other ≠ name := by
    simp [Graph.left, List.filter_filter]
  rw [fewer]
  refine List.length_filter_lt_length_iff_exists.mpr ⟨name, ?_, by simp⟩
  exact List.mem_filter.mpr ⟨isKey, by simpa using offPath⟩

theorem Graph.dependencies_eq_nil (noKey : name ∉ graph.map Prod.fst) :
    graph.dependencies name = [] := by
  have none : lookupEntry graph name = none := by
    rw [lookupEntry, Option.map_eq_none_iff, List.find?_eq_none]
    intro entry mem same
    exact noKey (List.mem_map.mpr ⟨entry, mem, of_decide_eq_true same⟩)
  rw [Graph.dependencies, none, Option.getD_none]

theorem foldl_visits {step : Visit → PackageName → Visit} {path : List PackageName}
    (extends_ : ∀ (visit : Visit) (name : PackageName), visit.Ok → visit.Extends (step visit name))
    (visits : ∀ (visit : Visit) (name : PackageName), visit.Ok → visit.visiting = path →
      Visits graph.dependencies [name] visit.walk (step visit name).walk) (names : List PackageName)
    (visit : Visit) (ok : visit.Ok) (onPath : visit.visiting = path) :
    Visits graph.dependencies names visit.walk (names.foldl step visit).walk := by
  induction names generalizing visit with
  | nil => exact .done
  | cons name rest ih =>
    have first := extends_ visit name ok
    exact (visits visit name ok onPath).append (ih _ first.ok (first.visiting.trans onPath))

/-- The fuel is not used up as long as it exceeds the number of names that the path has not entered. -/
theorem visitDependency_visits (graph : Graph) (fuel : ℕ) (name : PackageName) (visit : Visit)
    (ok : visit.Ok) (enough : (graph.left visit.visiting).length < fuel) :
    Visits graph.dependencies [name] visit.walk (visitDependency graph fuel name visit).walk := by
  induction fuel generalizing name visit with
  | zero => exact absurd enough (Nat.not_lt_zero _)
  | succ fuel ih =>
    unfold visitDependency
    split_ifs with finished onPath'
    · exact .visited finished .done
    · exact .visiting finished onPath' .done
    · let entered : Visit := { visit with visiting := name :: visit.visiting }
      let inner : Visit := (graph.dependencies name).foldl
        (fun visit dependency ↦ visitDependency graph fuel dependency visit) entered
      have okEntered : entered.Ok := by
        refine ⟨ok.nodup, ok.mem_ordered, fun other mem ↦ ?_⟩
        obtain rfl | older := List.mem_cons.mp mem
        · exact finished
        · exact ok.apart other older
      have below : Visits graph.dependencies (graph.dependencies name) (visit.walk.enter name)
          inner.walk := by
        by_cases isKey : name ∈ graph.map Prod.fst
        · refine foldl_visits (fun visit dependency ok ↦ visitDependency_extends graph fuel dependency
            visit ok) (fun visit dependency ok onPath ↦ ih dependency visit ok ?_) _ entered okEntered rfl
          rw [onPath]
          exact lt_of_lt_of_le (Graph.left_enter isKey onPath') (Nat.lt_succ_iff.mp enough)
        · simp only [inner, Graph.dependencies_eq_nil isKey]
          exact .done
      have left : (⟨inner.visiting.erase name, name :: inner.visited, inner.ordered ++ [name]⟩ : Visit).walk
          = inner.walk.leave name := by
        rw [Walk.leave, lawful_beq_subsingleton instBEqOfDecidableEq (Subtype.instBEq (α := Text))]
        rfl
      exact left ▸ .visit finished onPath' below .done

theorem left_nil_lt (graph : Graph) : (graph.left []).length < graph.length + 1 := by
  have all : graph.left [] = graph.map Prod.fst := by simp [Graph.left]
  rw [all, List.length_map]
  exact Nat.lt_succ_self _

/-- The search for the order is the depth-first walk from every name of the graph. -/
theorem dependencyOrder_visits (graph : Graph) : ∃ after : Walk PackageName,
    Visits graph.dependencies (graph.map Prod.fst) .start after ∧
      dependencyOrder graph = after.ordered := by
  let start : Visit := { visiting := [], visited := [], ordered := [] }
  have ok : start.Ok := ⟨List.nodup_nil, fun _ ↦ Iff.rfl, fun _ mem ↦ absurd mem List.not_mem_nil⟩
  let step (visit : Visit) (name : PackageName) := visitDependency graph (graph.length + 1) name visit
  refine ⟨_, @foldl_visits graph step []
    (fun visit name ok ↦ visitDependency_extends graph _ name visit ok)
    (fun visit name ok onPath ↦ visitDependency_visits graph _ name visit ok ?_) _ start ok rfl, rfl⟩
  rw [onPath]
  exact left_nil_lt graph


/-- What an order of a graph is for: the walk that gives it ends, it lists the packages of the graph and
those that they depend on, and a package off every cycle comes after its dependencies. -/
structure InstallOrder (graph : Graph) (order : List PackageName) : Prop where
  terminates : ∃ after : Walk PackageName,
    Visits graph.dependencies (graph.map Prod.fst) .start after ∧ after.ordered = order
  nodup : order.Nodup
  listed : ∀ name, name ∈ order ↔ name ∈ graph.map Prod.fst ∨ ∃ owner, name ∈ graph.dependencies owner
  selected : (∀ owner, ∀ name ∈ graph.dependencies owner, name ∈ graph.map Prod.fst) →
    order.Perm (graph.map Prod.fst)
  placed : ∀ name ∈ graph.map Prod.fst, ¬OnCycle graph.dependencies name →
    ∀ dependency ∈ graph.dependencies name,
      ∃ front back, order = front ++ name :: back ∧ dependency ∈ front

theorem Graph.below_iff (graph : Graph) (name : PackageName) :
    (∃ owner ∈ graph.map Prod.fst,
        Relation.ReflTransGen (DepthFirst.Edge graph.dependencies) owner name) ↔
      name ∈ graph.map Prod.fst ∨ ∃ owner, name ∈ graph.dependencies owner := by
  constructor
  · intro below
    obtain ⟨owner, isKey, path⟩ := below
    cases path with
    | refl => exact Or.inl isKey
    | tail _ next => exact Or.inr ⟨_, next⟩
  · intro listed
    obtain isKey | ⟨owner, next⟩ := listed
    · exact ⟨name, isKey, .refl⟩
    · refine ⟨owner, ?_, .single next⟩
      by_contra noKey
      rw [Graph.dependencies_eq_nil noKey] at next
      exact List.not_mem_nil next

theorem dependencyOrder_installOrder (sorted : graph.Pairwise fun a b ↦ a.1 < b.1) :
    InstallOrder graph (dependencyOrder graph) := by
  obtain ⟨after, visits, same⟩ := dependencyOrder_visits graph
  have ext := visits.extends Walk.ok_start
  have listed : ∀ name, name ∈ dependencyOrder graph ↔
      name ∈ graph.map Prod.fst ∨ ∃ owner, name ∈ graph.dependencies owner := by
    intro name
    rw [same, visits.mem_ordered, Graph.below_iff]
  have nodup : (dependencyOrder graph).Nodup := same ▸ ext.ok.nodup
  refine ⟨⟨after, visits, same.symm⟩, nodup, listed, fun closed ↦ ?_, fun name isKey ↦ ?_⟩
  · have keysNodup : (graph.map Prod.fst).Nodup :=
      List.pairwise_map.mpr (sorted.imp fun before ↦ before.ne)
    refine (List.perm_ext_iff_of_nodup nodup keysNodup).mpr fun name ↦ ?_
    rw [listed, or_iff_left_iff_imp]
    intro next
    obtain ⟨owner, isNext⟩ := next
    exact closed owner name isNext
  · have placed := visits.placed Walk.ok_start (fun _ mem ↦ absurd mem List.not_mem_nil)
      fun _ mem ↦ absurd mem List.not_mem_nil
    rw [same]
    exact placed name (same ▸ (listed name).mpr (Or.inl isKey))

/-- The order of a filled graph is an install order, and the same for every way to fill the graph. -/
theorem dependencyOrder_fill (entries : List (PackageName × List PackageName)) :
    InstallOrder (Graph.fill entries) (dependencyOrder (Graph.fill entries)) ∧
      ∀ entries' : List (PackageName × List PackageName),
        (∀ name, Option.Rel (fun names names' ↦ ∀ other, other ∈ names ↔ other ∈ names')
          (lastEntry entries name) (lastEntry entries' name)) →
        dependencyOrder (Graph.fill entries') = dependencyOrder (Graph.fill entries) := by
  refine ⟨dependencyOrder_installOrder (sorted_fill entries), fun entries' agree ↦ ?_⟩
  have filled : Graph.fill entries = Graph.fill entries' := by
    refine fill_eq fun name ↦ ?_
    have same := agree name
    generalize lastEntry entries name = last, lastEntry entries' name = last' at same
    cases same with
    | none => rfl
    | some same => exact congrArg some (nameSet_eq same)
  rw [filled]

/-- A dependency outside the graph is listed before its only owner. -/
theorem outside_dependency_listed :
    ¬(dependencyOrder (Graph.fill [(⟨['a'], by decide⟩, [⟨['b'], by decide⟩])])).Perm
      ((Graph.fill [(⟨['a'], by decide⟩, [⟨['b'], by decide⟩])]).map Prod.fst) := by
  decide

end Pon.Resolve
