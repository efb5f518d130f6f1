import Mathlib.Data.List.Range
import Pon.Sre.Bounds

/-!
# Matching and scanning

The operations of a compiled pattern. A subject is the list of its units, and so is every text that is
cut out of it. A match at a position is the first end state that is asked for; a search tries the
positions in turn, and a scan goes on behind each match.
-/

namespace Pon.Sre

structure Pattern where
  groups : ℕ
  groupindex : List (String × ℕ)
  indexgroup : List (Option String)
  nodes : List Node

structure Match where
  subject : List Word
  spans : List (Option (ℕ × ℕ))
  lastindex : Option ℕ
  lastgroup : Option String
  groupindex : List (String × ℕ)

/-- The units from a position to another one, which is not before it. -/
def sliceValue (subject : List Word) (start stop : ℕ) : List Word :=
  (subject.drop start).take (stop - start)

namespace Match

def span (matched : Match) (index : ℕ) : Option (Option (ℕ × ℕ)) :=
  matched.spans[index]?

def group (matched : Match) (index : ℕ) : Option (List Word) :=
  (matched.span index).join.map fun span ↦ sliceValue matched.subject span.1 span.2

def end_ (matched : Match) (index : ℕ) : Option ℕ :=
  (matched.span index).join.map Prod.snd

theorem end_of_span {matched : Match} {index start stop : ℕ}
    (h : matched.span index = some (some (start, stop))) : matched.end_ index = some stop := by
  rw [end_, h]
  rfl

end Match

namespace Pattern

variable (table : CharTable) (pattern : Pattern) (subject : List Word)

def buildMatch (start : ℕ) (state : MatchState) : Match :=
  let spans := some (start, state.pos) :: (List.range pattern.groups).map fun group ↦
    (state.mark (group * 2)).bind fun groupStart ↦
      (state.mark (group * 2 + 1)).map fun groupEnd ↦ (groupStart, groupEnd)
  let lastindex := state.lastindex.filter fun index ↦ (spans[index]?).any Option.isSome
  { subject, spans, lastindex
    lastgroup := lastindex.bind fun index ↦ (pattern.indexgroup[index]?).join
    groupindex := pattern.groupindex }

/-- The state in which a match starts. -/
def startState (start : ℕ) : MatchState :=
  ⟨start, List.replicate (pattern.groups * 2) none, none⟩

/-- Whether an end state is one that is asked for. -/
def accepts (start : ℕ) (requireEnd : Option ℕ) (skipEmptyAtStart : Bool) (state : MatchState) : Bool :=
  !(skipEmptyAtStart && state.pos == start) && requireEnd.all (state.pos == ·)

def matchDataFiltered (start : ℕ) (requireEnd : Option ℕ) (skipEmptyAtStart : Bool) :
    Except ExecutionError (Option Match) := do
  let states ← execute table subject pattern.nodes (pattern.startState start)
    (requireEnd.isSome || skipEmptyAtStart)
  pure ((states.find? (accepts start requireEnd skipEmptyAtStart)).map (pattern.buildMatch subject start))

def matchData (start : ℕ) (requireEnd : Option ℕ) : Except ExecutionError (Option Match) :=
  pattern.matchDataFiltered table subject start requireEnd false

/-- The match at the first of the positions at which there is one. -/
def searchAt : List ℕ → Except ExecutionError (Option Match)
  | [] => pure none
  | pos :: later => do
      match ← pattern.matchData table subject pos none with
      | some matched => pure (some matched)
      | none => searchAt later

def searchDataFrom (start : ℕ) : Except ExecutionError (Option Match) :=
  pattern.searchAt table subject (List.range' start (subject.length + 1 - start))

variable {table pattern subject}

variable {start : ℕ} {requireEnd : Option ℕ} {skipEmptyAtStart : Bool} {matched : Match}

/-- A match at a position spans from there to an end state. -/
theorem matchDataFiltered_eq_some
    (h : pattern.matchDataFiltered table subject start requireEnd skipEmptyAtStart = .ok (some matched)) :
    ∃ states state, execute table subject pattern.nodes (pattern.startState start)
        (requireEnd.isSome || skipEmptyAtStart) = .ok states ∧
      states.find? (accepts start requireEnd skipEmptyAtStart) = some state ∧
      matched = pattern.buildMatch subject start state := by
  obtain ⟨states, ran, h⟩ := Effect.ok_of_bind h
  obtain ⟨state, found, same⟩ := Option.map_eq_some_iff.mp (Except.ok.inj h)
  exact ⟨states, state, ran, found, same.symm⟩

section

variable (inside : start ≤ subject.length)
  (h : pattern.matchDataFiltered table subject start requireEnd skipEmptyAtStart = .ok (some matched))
include inside h

/-- A match spans from its start to a position at or after it, and not to its start where an empty match
is to be skipped. -/
theorem span_of_matchDataFiltered :
    ∃ stop, matched.span 0 = some (some (start, stop)) ∧ start ≤ stop ∧ stop ≤ subject.length ∧
      (skipEmptyAtStart → stop ≠ start) ∧ matched.subject = subject := by
  obtain ⟨states, state, ran, found, rfl⟩ := matchDataFiltered_eq_some h
  have within := execute_within pattern.nodes _ _ states ran inside state (List.mem_of_find?_eq_some found)
  refine ⟨state.pos, rfl, within.1, within.2, fun skip atStart ↦ ?_, rfl⟩
  have accepted := List.find?_some found
  simp [accepts, skip, atStart] at accepted

theorem end_of_matchDataFiltered :
    start ≤ (matched.end_ 0).getD start ∧ (matched.end_ 0).getD start ≤ subject.length ∧
      (skipEmptyAtStart → (matched.end_ 0).getD start ≠ start) := by
  obtain ⟨stop, span, before, after, moved, -⟩ := span_of_matchDataFiltered inside h
  rw [Match.end_of_span span]
  exact ⟨before, after, moved⟩

end

variable (table pattern subject)

/-- The matches from a position on. Behind an empty match, the scan first asks for another match at the
same position. -/
def finditerFrom (start : ℕ) (skipEmptyAt : Option ℕ) : Except ExecutionError (List Match) :=
  if start ≤ subject.length then
    match found : pattern.matchDataFiltered table subject start none (decide (skipEmptyAt = some start)) with
    | .error error => .error error
    | .ok none => finditerFrom (start + 1) none
    | .ok (some matched) =>
        if (matched.end_ 0).getD start = start then
          (finditerFrom start (some start)).map (matched :: ·)
        else (finditerFrom ((matched.end_ 0).getD start) none).map (matched :: ·)
  else .ok []
termination_by (subject.length + 1 - start, if skipEmptyAt = some start then 0 else 1)
decreasing_by
  · apply Prod.Lex.left
    omega
  · rename_i atStart
    have notSkipped : skipEmptyAt ≠ some start := fun skip ↦
      (end_of_matchDataFiltered ‹start ≤ subject.length› found).2.2 (decide_eq_true skip) atStart
    rw [if_neg notSkipped, if_pos trivial]
    exact Prod.Lex.right _ Nat.zero_lt_one
  · rename_i moved
    obtain ⟨before, after, -⟩ := end_of_matchDataFiltered ‹start ≤ subject.length› found
    apply Prod.Lex.left
    omega

def finditerData : Except ExecutionError (List Match) :=
  pattern.finditerFrom table subject 0 none

inductive MatchMode
  | match_
  | fullmatch
  | search

/-- Runs a mode from a position, on the subject up to another one. -/
def runMatch (mode : MatchMode) (pos endpos : ℕ) : Except ExecutionError (Option Match) :=
  let sub := subject.take endpos
  match mode with
  | .match_ => pattern.matchData table sub pos none
  | .fullmatch => pattern.matchData table sub pos (some sub.length)
  | .search => pattern.searchDataFrom table sub pos

def runFinditer (pos endpos : ℕ) : Except ExecutionError (List Match) :=
  if endpos < pos then .ok []
  else do
    let found ← pattern.finditerData table (subject.take endpos)
    pure (found.filter fun matched ↦ (matched.span 0).join.any fun span ↦ pos ≤ span.1)

inductive FindallItem
  | value (text : List Word)
  | tuple (texts : List (List Word))
deriving DecidableEq

/-- What `findall` yields for a match; a group that did not participate is empty. -/
def findallItem (matched : Match) : FindallItem :=
  let columns :=
    if pattern.groups = 0 then [matched.group 0]
    else if pattern.groups = 1 then [matched.group 1]
    else (List.range' 1 pattern.groups).map matched.group
  match columns.map (·.getD []) with
  | [text] => .value text
  | texts => .tuple texts

def findall (pos endpos : ℕ) : Except ExecutionError (List FindallItem) := do
  let found ← pattern.runFinditer table subject pos endpos
  pure (found.map pattern.findallItem)

/-- The units between two positions, which are moved into the subject and into order. -/
def sliceBytes (start stop : ℕ) : List Word :=
  let start := min start subject.length
  let stop := max start (min stop subject.length)
  sliceValue subject start stop

/-- The rest of a split, from the end of the last match on; groups that did not participate yield none. -/
def splitItems (maxsplit : ℤ) : List Match → ℕ → ℤ → List (Option (List Word))
  | [], last, _ => [some (sliceBytes subject last subject.length)]
  | matched :: later, last, splits =>
      if 0 < maxsplit ∧ maxsplit ≤ splits then [some (sliceBytes subject last subject.length)]
      else
        match (matched.span 0).join with
        | none => splitItems maxsplit later last splits
        | some (start, stop) =>
            some (sliceBytes subject last start) :: (List.range' 1 pattern.groups).map matched.group ++
              splitItems maxsplit later stop (splits + 1)

def split (maxsplit : ℤ) : Except ExecutionError (List (Option (List Word))) := do
  let found ← pattern.runFinditer table subject 0 subject.length
  pure (pattern.splitItems subject maxsplit found 0 0)

inductive GroupSelector
  | index (index : ℕ)
  | name (name : String)

inductive ReplPiece
  | literal (text : List Word)
  | group (selector : GroupSelector)

/-- A replacement is a template or a function, which may raise an exception. -/
inductive Repl
  | template (pieces : List ReplPiece)
  | callable (call : Match → Option (List Word))

inductive SubError
  | execution (error : ExecutionError)
  | unknownGroupName (name : String)
  | invalidGroupReference (index : ℕ)
  | raised
deriving DecidableEq

def GroupSelector.resolve (matched : Match) : GroupSelector → Except SubError ℕ
  | .index number => .ok number
  | .name text => ((matched.groupindex.lookup text).map Except.ok).getD (.error (.unknownGroupName text))

def expandTemplate (matched : Match) : List ReplPiece → Except SubError (List Word)
  | [] => .ok []
  | .literal text :: pieces => (expandTemplate matched pieces).map (text ++ ·)
  | .group selector :: pieces => do
      let index ← selector.resolve matched
      match matched.span index with
      | none => .error (.invalidGroupReference index)
      | some _ => (expandTemplate matched pieces).map ((matched.group index).getD [] ++ ·)

def Repl.replacement (matched : Match) : Repl → Except SubError (List Word)
  | .template pieces => expandTemplate matched pieces
  | .callable call => ((call matched).map Except.ok).getD (.error .raised)

/-- The rest of a substitution, from the end of the last match on. -/
def subLoop (repl : Repl) (count : ℤ) :
    List Match → ℕ → ℤ → List Word → Except SubError (List Word × ℤ)
  | [], last, replaced, out => .ok (out ++ sliceBytes subject last subject.length, replaced)
  | matched :: later, last, replaced, out =>
      if 0 < count ∧ count ≤ replaced then .ok (out ++ sliceBytes subject last subject.length, replaced)
      else
        match (matched.span 0).join with
        | none => subLoop repl count later last replaced out
        | some (start, stop) => do
            let text ← repl.replacement matched
            subLoop repl count later stop (replaced + 1) (out ++ sliceBytes subject last start ++ text)

/-- The text after the substitution and the number of replacements. -/
def sub (repl : Repl) (count : ℤ) : Except SubError (List Word × ℤ) :=
  match pattern.runFinditer table subject 0 subject.length with
  | .error error => .error (.execution error)
  | .ok [] => .ok (subject, 0)
  | .ok found => subLoop subject repl count found 0 0 []

end Pattern

end Pon.Sre
