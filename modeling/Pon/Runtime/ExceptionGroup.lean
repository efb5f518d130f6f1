import Mathlib.Data.List.Basic

/-!
# Splitting exception groups

A group is split along a condition into two trees: what matches with the groups around it, and the
rest. A group that matches is taken over whole, and one that does not is rebuilt on each side without
the members that went to the other side.
-/

namespace Pon.ExceptionGroup

structure PyBaseException (Ty Obj : Type) where
  obType : Ty
  message : Obj
  cause : Option Obj
  context : Option Obj
  traceback : Option Obj
  suppressContext : Bool
  /-- What else an instance carries: its arguments, dictionary and slots. -/
  dict : Option Obj

inductive PyException (Ty Obj : Type)
  | plain (base : PyBaseException Ty Obj)
  | group (base : PyBaseException Ty Obj) (exceptions : List (PyException Ty Obj))

variable {Ty Obj ε : Type}

def PyException.base : PyException Ty Obj → PyBaseException Ty Obj
  | .plain base | .group base _ => base

inductive SplitCond (Ty Obj ε : Type)
  | types (types : List Ty)
  | callable (call : PyException Ty Obj → Except ε Bool)

def conditionMatches (isSubclass : Ty → Ty → Bool) (cond : SplitCond Ty Obj ε)
    (node : PyException Ty Obj) : Except ε Bool :=
  match cond with
  | .types types => .ok (types.any fun ty ↦ isSubclass node.base.obType ty)
  | .callable call => call node

/-- A new group of the type, with the message and the metadata of the source. -/
def allocGroupLike (source : PyBaseException Ty Obj) (members : List (PyException Ty Obj)) :
    PyException Ty Obj :=
  .group { source with dict := none } members

structure SplitOutcome (Ty Obj : Type) where
  matched : Option (PyException Ty Obj)
  rest : Option (PyException Ty Obj)

def groupOfParts (source : PyBaseException Ty Obj) (parts : List (PyException Ty Obj)) :
    Option (PyException Ty Obj) :=
  if parts.isEmpty then none else some (allocGroupLike source parts)

section Split

variable (isSubclass : Ty → Ty → Bool) (cond : SplitCond Ty Obj ε)

mutual

def splitException : PyException Ty Obj → Except ε (SplitOutcome Ty Obj)
  | .plain base => do
      if ← conditionMatches isSubclass cond (.plain base) then
        .ok { matched := some (.plain base), rest := none }
      else .ok { matched := none, rest := some (.plain base) }
  | .group base exceptions => do
      if ← conditionMatches isSubclass cond (.group base exceptions) then
        .ok { matched := some (.group base exceptions), rest := none }
      else
        let (matchedParts, restParts) ← splitMembers exceptions
        .ok { matched := groupOfParts base matchedParts, rest := groupOfParts base restParts }

def splitMembers :
    List (PyException Ty Obj) → Except ε (List (PyException Ty Obj) × List (PyException Ty Obj))
  | [] => .ok ([], [])
  | child :: more => do
      let split ← splitException child
      let (matchedParts, restParts) ← splitMembers more
      .ok (split.matched.toList ++ matchedParts, split.rest.toList ++ restParts)

end

/-- What identifies a node on both sides of a split. -/
def PyException.mark : PyException Ty Obj → PyBaseException Ty Obj
  | .plain base => base
  | .group base _ => { base with dict := none }

mutual

/-- For each leaf in order the nodes from the root down to it. -/
def PyException.paths : PyException Ty Obj → List (List (PyException Ty Obj))
  | .plain base => [[.plain base]]
  | .group base exceptions => (pathsAll exceptions).map (.group base exceptions :: ·)

def pathsAll : List (PyException Ty Obj) → List (List (PyException Ty Obj))
  | [] => []
  | node :: more => node.paths ++ pathsAll more

end

/-- The leaves with the groups around them, identified on both sides of a split. -/
def chains (nodes : List (PyException Ty Obj)) : List (List (PyBaseException Ty Obj)) :=
  (pathsAll nodes).map (·.map PyException.mark)

/-- There is no empty group. -/
inductive Solid : PyException Ty Obj → Prop
  | plain (base : PyBaseException Ty Obj) : Solid (.plain base)
  | group {base : PyBaseException Ty Obj} {exceptions : List (PyException Ty Obj)}
      (nonempty : exceptions ≠ []) (members : ∀ node ∈ exceptions, Solid node) :
      Solid (.group base exceptions)

def satisfies (node : PyException Ty Obj) : Bool :=
  match conditionMatches isSubclass cond node with
  | .ok answer => answer
  | .error _ => false

mutual

/-- The nodes that the condition is asked about: those around which no group matches. -/
def asked : PyException Ty Obj → List (PyException Ty Obj)
  | .plain base => [.plain base]
  | .group base exceptions =>
      .group base exceptions ::
        if satisfies isSubclass cond (.group base exceptions) then [] else askedAll exceptions

def askedAll : List (PyException Ty Obj) → List (PyException Ty Obj)
  | [] => []
  | node :: more => asked node ++ askedAll more

end

/-- A group that does not match does not match either once it is rebuilt from the rest parts of its
members. -/
def Settled : Prop :=
  ∀ base exceptions matched rest,
    conditionMatches isSubclass cond (.group base exceptions) = .ok false →
    splitMembers isSubclass cond exceptions = .ok (matched, rest) → rest ≠ [] →
    conditionMatches isSubclass cond (allocGroupLike base rest) = .ok false

/-- The leaves below a match and the others, in the order and under the groups that they had. -/
structure Partition (nodes matched rest : List (PyException Ty Obj)) : Prop where
  matched_leaves : chains matched =
    ((pathsAll nodes).filter (·.any (satisfies isSubclass cond))).map (·.map PyException.mark)
  rest_leaves : chains rest =
    ((pathsAll nodes).filter (!·.any (satisfies isSubclass cond))).map (·.map PyException.mark)
  solid : (∀ node ∈ nodes, Solid node) → ∀ part ∈ matched ++ rest, Solid part
  again : Settled isSubclass cond → ∀ part ∈ rest,
    splitException isSubclass cond part = .ok { matched := none, rest := some part }
  answered : ∀ node ∈ askedAll isSubclass cond nodes, ∃ answer,
    conditionMatches isSubclass cond node = .ok answer

end Split

variable {isSubclass : Ty → Ty → Bool} {cond : SplitCond Ty Obj ε}
  {base : PyBaseException Ty Obj} {node : PyException Ty Obj}
  {nodes more matched matched' rest rest' : List (PyException Ty Obj)}

@[simp]
theorem pathsAll_append : pathsAll (nodes ++ more) = pathsAll nodes ++ pathsAll more := by
  induction nodes with
  | nil => rfl
  | cons first others ih => simp [pathsAll, ih]

@[simp]
theorem askedAll_append : askedAll isSubclass cond (nodes ++ more) =
    askedAll isSubclass cond nodes ++ askedAll isSubclass cond more := by
  induction nodes with
  | nil => rfl
  | cons first others ih => simp [askedAll, ih]

theorem groupOfParts_solid (solid : ∀ part ∈ nodes, Solid part) :
    ∀ part ∈ (groupOfParts base nodes).toList, Solid part := by
  unfold groupOfParts
  cases nodes with
  | nil => simp
  | cons first others => simpa [allocGroupLike] using Solid.group (by simp) solid

theorem chains_groupOfParts : chains (groupOfParts base nodes).toList =
    (chains nodes).map ({ base with dict := none } :: ·) := by
  unfold groupOfParts
  cases nodes with
  | nil => rfl
  | cons first others =>
    simp [chains, pathsAll, PyException.paths, allocGroupLike, PyException.mark, Function.comp_def]

theorem paths_ne_nil (solid : Solid node) : node.paths ≠ [] := by
  induction solid with
  | plain base => simp [PyException.paths]
  | @group base exceptions nonempty _ ih =>
    cases exceptions with
    | nil => exact absurd rfl nonempty
    | cons first others => simp [PyException.paths, pathsAll, ih first]

theorem Partition.nil : Partition isSubclass cond [] [] [] :=
  ⟨rfl, rfl, by simp, by simp, by simp [askedAll]⟩

theorem Partition.append (h : Partition isSubclass cond nodes matched rest)
    (h' : Partition isSubclass cond more matched' rest') :
    Partition isSubclass cond (nodes ++ more) (matched ++ matched') (rest ++ rest') where
  matched_leaves := by
    have first := h.matched_leaves
    have second := h'.matched_leaves
    simp_all [chains]
  rest_leaves := by
    have first := h.rest_leaves
    have second := h'.rest_leaves
    simp_all [chains]
  solid solid part mem := by
    have first := h.solid fun node mem ↦ solid node (List.mem_append_left _ mem)
    have second := h'.solid fun node mem ↦ solid node (List.mem_append_right _ mem)
    simp only [List.mem_append] at mem first second
    rcases mem with (mem | mem) | mem | mem
    · exact first part (.inl mem)
    · exact second part (.inl mem)
    · exact first part (.inr mem)
    · exact second part (.inr mem)
  again settled part mem := (List.mem_append.mp mem).elim (h.again settled part) (h'.again settled part)
  answered node mem := by
    rw [askedAll_append] at mem
    exact (List.mem_append.mp mem).elim (h.answered node) (h'.answered node)

theorem any_satisfies_of_mem_paths (sat : satisfies isSubclass cond node) :
    ∀ path ∈ node.paths, path.any (satisfies isSubclass cond) := by
  cases node with
  | plain base => simp [PyException.paths, sat]
  | group base exceptions =>
    intro path mem
    obtain ⟨below, -, rfl⟩ := List.mem_map.mp mem
    simp [sat]

/-- A node that matches is taken over with all that is below it. -/
theorem Partition.of_matches (sat : conditionMatches isSubclass cond node = .ok true) :
    Partition isSubclass cond [node] [node] [] := by
  have holds : satisfies isSubclass cond node := by simp [satisfies, sat]
  have all := any_satisfies_of_mem_paths holds
  refine ⟨?_, ?_, by simp, by simp, ?_⟩
  · simp only [chains, pathsAll, List.append_nil]
    rw [List.filter_eq_self.mpr all]
  · simp only [chains, pathsAll, List.append_nil]
    rw [List.filter_eq_nil_iff.mpr fun path mem ↦ by simp [all path mem]]
  · cases node <;> simp [askedAll, asked, holds, sat]

theorem splitMembers_rest (h : ∀ part ∈ nodes,
    splitException isSubclass cond part = .ok { matched := none, rest := some part }) :
    splitMembers isSubclass cond nodes = .ok ([], nodes) := by
  induction nodes with
  | nil => rfl
  | cons first others ih =>
    rw [splitMembers, h first List.mem_cons_self, ih fun part mem ↦ h part (List.mem_cons_of_mem _ mem)]
    rfl

/-- A group that does not match is rebuilt from the parts of its members. -/
theorem Partition.group (unmatched : conditionMatches isSubclass cond (.group base nodes) = .ok false)
    (split : splitMembers isSubclass cond nodes = .ok (matched, rest))
    (h : Partition isSubclass cond nodes matched rest) :
    Partition isSubclass cond [.group base nodes] (groupOfParts base matched).toList
      (groupOfParts base rest).toList where
  matched_leaves := by
    rw [chains_groupOfParts, h.matched_leaves]
    simp [pathsAll, PyException.paths, List.filter_map, Function.comp_def, satisfies, unmatched,
      PyException.mark]
  rest_leaves := by
    rw [chains_groupOfParts, h.rest_leaves]
    simp [pathsAll, PyException.paths, List.filter_map, Function.comp_def, satisfies, unmatched,
      PyException.mark]
  solid solid part mem := by
    have parts := h.solid (by
      cases solid _ (List.mem_singleton_self _) with
      | group _ members => exact members)
    rcases List.mem_append.mp mem with mem | mem
    · exact groupOfParts_solid (fun part mem ↦ parts part (List.mem_append_left _ mem)) part mem
    · exact groupOfParts_solid (fun part mem ↦ parts part (List.mem_append_right _ mem)) part mem
  again settled part mem := by
    cases rest with
    | nil => simp [groupOfParts] at mem
    | cons first others =>
      obtain rfl : part = allocGroupLike base (first :: others) := by
        simpa [groupOfParts] using mem
      have again := settled base nodes matched (first :: others) unmatched split (by simp)
      rw [allocGroupLike] at again ⊢
      rw [splitException, again, splitMembers_rest (h.again settled)]
      rfl
  answered node mem := by
    rcases List.mem_cons.mp (by simpa [askedAll, asked, satisfies, unmatched] using mem) with rfl | mem
    · exact ⟨false, unmatched⟩
    · exact h.answered node mem

/-- Either the condition raises on a node that it is asked about, or the parts are a partition. -/
def Splits (isSubclass : Ty → Ty → Bool) (cond : SplitCond Ty Obj ε) (nodes : List (PyException Ty Obj)) :
    Except ε (List (PyException Ty Obj) × List (PyException Ty Obj)) → Prop
  | .ok parts => Partition isSubclass cond nodes parts.1 parts.2
  | .error error => ∃ node ∈ askedAll isSubclass cond nodes,
      conditionMatches isSubclass cond node = .error error

def SplitOutcome.parts (outcome : SplitOutcome Ty Obj) :
    List (PyException Ty Obj) × List (PyException Ty Obj) :=
  (outcome.matched.toList, outcome.rest.toList)

theorem Partition.plain (unmatched : conditionMatches isSubclass cond (.plain base) = .ok false) :
    Partition isSubclass cond [.plain base] [] [.plain base] where
  matched_leaves := by simp [chains, pathsAll, PyException.paths, satisfies, unmatched]
  rest_leaves := by simp [chains, pathsAll, PyException.paths, satisfies, unmatched]
  solid _ part mem := by
    obtain rfl := List.mem_singleton.mp mem
    exact .plain base
  again _ part mem := by
    obtain rfl := List.mem_singleton.mp mem
    rw [splitException, unmatched]
    rfl
  answered := by simp [askedAll, asked, unmatched]

mutual

theorem splitException_splits : ∀ node : PyException Ty Obj,
    Splits isSubclass cond [node] ((splitException isSubclass cond node).map SplitOutcome.parts)
  | .plain base => by
    rw [splitException]
    cases answer : conditionMatches isSubclass cond (.plain base) with
    | error error => exact ⟨_, by simp [askedAll, asked], answer⟩
    | ok matched =>
      cases matched with
      | true => exact .of_matches answer
      | false => exact .plain answer
  | .group base exceptions => by
    rw [splitException]
    cases answer : conditionMatches isSubclass cond (.group base exceptions) with
    | error error => exact ⟨_, by simp [askedAll, asked], answer⟩
    | ok matched =>
      cases matched with
      | true => exact .of_matches answer
      | false =>
        have members := splitMembers_splits exceptions
        cases split : splitMembers isSubclass cond exceptions with
        | error error =>
          rw [split] at members
          obtain ⟨node, mem, raised⟩ := members
          exact ⟨node, by simp [askedAll, asked, satisfies, answer, mem], raised⟩
        | ok parts =>
          rw [split] at members
          exact .group answer split members

theorem splitMembers_splits : ∀ nodes : List (PyException Ty Obj),
    Splits isSubclass cond nodes (splitMembers isSubclass cond nodes)
  | [] => .nil
  | child :: more => by
    have first := splitException_splits child
    have others := splitMembers_splits more
    rw [splitMembers]
    cases split : splitException isSubclass cond child with
    | error error =>
      rw [split] at first
      obtain ⟨node, mem, raised⟩ := first
      exact ⟨node, List.mem_append_left _ (by simpa [askedAll] using mem), raised⟩
    | ok outcome =>
      rw [split] at first
      cases rest : splitMembers isSubclass cond more with
      | error error =>
        rw [rest] at others
        obtain ⟨node, mem, raised⟩ := others
        exact ⟨node, List.mem_append_right _ mem, raised⟩
      | ok parts =>
        rw [rest] at others
        exact Partition.append first others

end

/-- The types of a group decide alone about a set of types. -/
theorem settled_types (types : List Ty) :
    Settled isSubclass (.types types : SplitCond Ty Obj ε) := fun _ _ _ _ unmatched _ _ ↦ unmatched

theorem Partition.absent (h : Partition isSubclass cond [node] matched rest) (solid : Solid node) :
    (matched = [] ↔ ∀ path ∈ node.paths, ¬path.any (satisfies isSubclass cond)) ∧
      (rest = [] ↔ ∀ path ∈ node.paths, path.any (satisfies isSubclass cond)) := by
  have solid := h.solid (by simpa using solid)
  have empty {parts : List (PyException Ty Obj)} (solid : ∀ part ∈ parts, Solid part) :
      parts = [] ↔ chains parts = [] := by
    cases parts with
    | nil => simp [chains, pathsAll]
    | cons first others => simp [chains, pathsAll, paths_ne_nil (solid first List.mem_cons_self)]
  rw [empty fun part mem ↦ solid part (List.mem_append_left _ mem), h.matched_leaves,
    empty fun part mem ↦ solid part (List.mem_append_right _ mem), h.rest_leaves]
  simp [pathsAll, List.filter_eq_nil_iff]

/-- A split puts every leaf on the side that the condition says, below the groups that were around it
and in order; there is no empty group on either side, and an absent part has no leaf. The rest is not
split again by a condition that a group rebuilt from the rest parts of its members satisfies no more
than the group before, such as a set of types. No part is returned exactly when the condition raises on a node that it is asked about. -/
theorem splitException_spec (isSubclass : Ty → Ty → Bool) (cond : SplitCond Ty Obj ε)
    (node : PyException Ty Obj) :
    (match splitException isSubclass cond node with
      | .ok outcome =>
        Partition isSubclass cond [node] outcome.matched.toList outcome.rest.toList ∧
          (Solid node →
            (outcome.matched = none ↔ ∀ path ∈ node.paths, ¬path.any (satisfies isSubclass cond)) ∧
            (outcome.rest = none ↔ ∀ path ∈ node.paths, path.any (satisfies isSubclass cond)))
      | .error error => ∃ raising ∈ asked isSubclass cond node,
          conditionMatches isSubclass cond raising = .error error) ∧
    ∀ types : List Ty, Settled isSubclass (.types types : SplitCond Ty Obj ε) := by
  refine ⟨?_, settled_types⟩
  have splits : Splits isSubclass cond [node] _ := splitException_splits node
  cases run : splitException isSubclass cond node with
  | error error => simpa [run, Splits, askedAll, Except.map] using splits
  | ok outcome =>
    rw [run] at splits
    exact ⟨splits, fun solid ↦ by simpa [SplitOutcome.parts] using splits.absent solid⟩

/-- A condition that counts the members of a group matches the rest of a group of two. -/
theorem splitException_matches_again :
    ¬∀ (cond : SplitCond ℕ Unit Unit) (node rest : PyException ℕ Unit) (outcome : SplitOutcome ℕ Unit),
      Solid node → splitException (· = ·) cond node = .ok outcome → outcome.rest = some rest →
      ∃ again, splitException (· = ·) cond rest = .ok again ∧ again.matched = none := by
  intro holds
  let base (obType : ℕ) : PyBaseException ℕ Unit := ⟨obType, (), none, none, none, false, none⟩
  let counts : PyException ℕ Unit → Except Unit Bool
    | .plain base => .ok (base.obType = 1)
    | .group _ exceptions => .ok (exceptions.length = 1)
  obtain ⟨again, run, none⟩ := holds (.callable counts) (.group (base 0) [.plain (base 1), .plain (base 2)])
    _ _ (.group (by simp) (by simp [Solid.plain])) rfl rfl
  obtain rfl := Except.ok.inj run
  exact nomatch none

end Pon.ExceptionGroup
