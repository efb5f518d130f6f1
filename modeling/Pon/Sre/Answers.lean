import Pon.Sre.Finditer
import Pon.Sre.Backtracking

/-!
# Answers

What the operations of a pattern are to answer under a meaning of its tree. If every match at a position
that an operation tries is answered, so is the operation.
-/

namespace Pon.Sre.Pattern

open Alternatives

variable (semantics : Semantics) (table : CharTable) (pattern : Pattern) (subject : List Word)

/-- The match at a position. -/
def answerAt (start : ℕ) (requireEnd : Option ℕ) (skipEmptyAtStart : Bool) : Option Match :=
  ((ends semantics table subject pattern.nodes (pattern.startState start)).find?
    (accepts start requireEnd skipEmptyAtStart)).map (pattern.buildMatch subject start)

/-- The match at the first position at which there is one. -/
def searchAnswer (start : ℕ) : Option Match :=
  (List.range' start (subject.length + 1 - start)).findSome? fun pos ↦
    answerAt semantics table pattern subject pos none false

def answer (mode : MatchMode) (pos : ℕ) : Option Match :=
  match mode with
  | .match_ => answerAt semantics table pattern subject pos none false
  | .fullmatch => answerAt semantics table pattern subject pos (some subject.length) false
  | .search => searchAnswer semantics table pattern subject pos

def nextAnswer (start : ℕ) (afterEmpty : Bool) : Option Match :=
  if afterEmpty then
    (answerAt semantics table pattern subject start none true).or
      (searchAnswer semantics table pattern subject (start + 1))
  else searchAnswer semantics table pattern subject start

/-- The matches of a scan. -/
inductive ScanAnswer : ℕ → Bool → List Match → Prop
  | done {start : ℕ} {afterEmpty : Bool}
      (next : nextAnswer semantics table pattern subject start afterEmpty = none) :
      ScanAnswer start afterEmpty []
  | found {start : ℕ} {afterEmpty : Bool} {matched : Match} {first last : ℕ} {later : List Match}
      (next : nextAnswer semantics table pattern subject start afterEmpty = some matched)
      (span : matched.span 0 = some (some (first, last))) (scan : ScanAnswer last (first == last) later) :
      ScanAnswer start afterEmpty (matched :: later)

/-- A match at a position reports a limit. -/
def givesUp (start : ℕ) (requireEnd : Option ℕ) (skipEmptyAtStart : Bool) : Bool :=
  !(pattern.matchDataFiltered table subject start requireEnd skipEmptyAtStart).isOk

/-- A condition on the matches that an operation tries: a search ends at the first answer, or where it gives
up. -/
def Tried (condition : ℕ → Option ℕ → Bool → Prop) (mode : MatchMode) (pos : ℕ) : Prop :=
  match mode with
  | .match_ => condition pos none false
  | .fullmatch => condition pos (some subject.length) false
  | .search =>
      Until (fun pos ↦ (answerAt semantics table pattern subject pos none false).isSome ||
          givesUp table pattern subject pos none false)
        (fun pos ↦ condition pos none false) (List.range' pos (subject.length + 1 - pos))

/-- The matches that a scan tries: behind each answer, and at the next position where there is none, unless
it gives up. -/
inductive ScanTries : ℕ → Bool → Prop
  | start : ScanTries 0 false
  | missed {start : ℕ} {afterEmpty : Bool} (tries : ScanTries start afterEmpty)
      (goesOn : givesUp table pattern subject start Option.none afterEmpty = false)
      (none : answerAt semantics table pattern subject start Option.none afterEmpty = Option.none) :
      ScanTries (start + 1) false
  | found {start last : ℕ} {afterEmpty : Bool} {matched : Match} (tries : ScanTries start afterEmpty)
      (goesOn : givesUp table pattern subject start none afterEmpty = false)
      (some : answerAt semantics table pattern subject start none afterEmpty = Option.some matched)
      (span : matched.span 0 = Option.some (Option.some (start, last))) : ScanTries last (start == last)

variable {semantics table pattern subject}

/-- Matches at positions are answered if they meet a condition. -/
def Answers (semantics : Semantics) (table : CharTable) (pattern : Pattern) (subject : List Word)
    (condition : ℕ → Option ℕ → Bool → Prop) : Prop :=
  ∀ start requireEnd skipEmptyAtStart result, condition start requireEnd skipEmptyAtStart →
    pattern.matchDataFiltered table subject start requireEnd skipEmptyAtStart = .ok result →
    result = answerAt semantics table pattern subject start requireEnd skipEmptyAtStart

variable {condition : ℕ → Option ℕ → Bool → Prop} {result : Option Match}

theorem givesUp_of_ok {start : ℕ} {requireEnd : Option ℕ} {skipEmptyAtStart : Bool}
    (matched : pattern.matchDataFiltered table subject start requireEnd skipEmptyAtStart = .ok result) :
    givesUp table pattern subject start requireEnd skipEmptyAtStart = false := by
  rw [givesUp, matched]
  rfl

theorem searchAt_answer (answers : Answers semantics table pattern subject condition) {positions : List ℕ}
    (tried : Until (fun pos ↦ (answerAt semantics table pattern subject pos none false).isSome ||
        givesUp table pattern subject pos none false) (fun pos ↦ condition pos none false) positions)
    (ok : pattern.searchAt table subject positions = .ok result) :
    result = positions.findSome? fun pos ↦ answerAt semantics table pattern subject pos none false := by
  induction positions with
  | nil => exact (Except.ok.inj ok).symm
  | cons pos later ih =>
    obtain ⟨found, matched, ok⟩ := Effect.ok_of_bind ok
    have isAnswer := answers pos none false found tried.1 matched
    cases found with
    | some found =>
      rw [List.findSome?_cons, ← isAnswer]
      exact (Except.ok.inj ok).symm
    | none =>
      rw [List.findSome?_cons, ← isAnswer]
      refine ih (tried.2 ?_) ok
      dsimp only
      rw [← isAnswer, givesUp_of_ok matched]
      rfl

theorem runMatch_answer {endpos : ℕ}
    (answers : Answers semantics table pattern (subject.take endpos) condition) {mode : MatchMode} {pos : ℕ}
    (tried : Tried semantics table pattern (subject.take endpos) condition mode pos)
    (ok : pattern.runMatch table subject mode pos endpos = .ok result) :
    result = answer semantics table pattern (subject.take endpos) mode pos := by
  cases mode with
  | match_ => exact answers pos none false result tried ok
  | fullmatch => exact answers pos _ false result tried ok
  | search => exact searchAt_answer answers tried ok

variable {start : ℕ} {found : List Match}

theorem nextAnswer_eq (inside : start ≤ subject.length) (afterEmpty : Bool) :
    nextAnswer semantics table pattern subject start afterEmpty =
      (answerAt semantics table pattern subject start none afterEmpty).or
        (nextAnswer semantics table pattern subject (start + 1) false) := by
  cases afterEmpty with
  | true => rfl
  | false =>
    change searchAnswer semantics table pattern subject start = _
    have more : subject.length + 1 - start = subject.length + 1 - (start + 1) + 1 := by omega
    rw [searchAnswer, more, List.range'_succ, List.findSome?_cons]
    cases answerAt semantics table pattern subject start none false <;> rfl

theorem nextAnswer_outside (outside : subject.length < start) :
    nextAnswer semantics table pattern subject start false = none := by
  change searchAnswer semantics table pattern subject start = _
  rw [searchAnswer, Nat.sub_eq_zero_of_le outside]
  rfl

theorem ScanAnswer.of_missed (inside : start ≤ subject.length) {afterEmpty : Bool}
    (missed : answerAt semantics table pattern subject start none afterEmpty = none)
    (scan : ScanAnswer semantics table pattern subject (start + 1) false found) :
    ScanAnswer semantics table pattern subject start afterEmpty found := by
  have same : nextAnswer semantics table pattern subject start afterEmpty = _ := nextAnswer_eq inside afterEmpty
  rw [missed, Option.none_or] at same
  cases scan with
  | done next => exact .done (same.trans next)
  | found next span later => exact .found (same.trans next) span later

theorem nextAnswer_of_some (inside : start ≤ subject.length) {afterEmpty : Bool} {matched : Match}
    (found : answerAt semantics table pattern subject start none afterEmpty = some matched) :
    nextAnswer semantics table pattern subject start afterEmpty = some matched := by
  rw [nextAnswer_eq inside, found]
  rfl

variable (answers : Answers semantics table pattern subject condition)
  (tried : ∀ start afterEmpty, ScanTries semantics table pattern subject start afterEmpty → start ≤ subject.length → condition start none afterEmpty)
include answers tried

theorem scanAnswer_finditerFrom (start : ℕ) (skipEmptyAt : Option ℕ)
    (tries : ScanTries semantics table pattern subject start (decide (skipEmptyAt = some start)))
    (inside : skipEmptyAt = some start → start ≤ subject.length)
    (ok : pattern.finditerFrom table subject start skipEmptyAt = .ok found) :
    ScanAnswer semantics table pattern subject start (decide (skipEmptyAt = some start)) found := by
  fun_induction finditerFrom table pattern subject start skipEmptyAt generalizing found with
  | case1 start skipEmptyAt within error limit => cases ok
  | case2 start skipEmptyAt within missed ih =>
    have isAnswer := answers start none _ none (tried _ _ tries within) missed
    exact .of_missed within isAnswer.symm (ih (tries.missed (givesUp_of_ok missed) isAnswer.symm) (by simp) ok)
  | case3 start skipEmptyAt within matched found' atStart ih =>
    have isAnswer := answers start none _ (some matched) (tried _ _ tries within) found'
    obtain ⟨stop, span, -⟩ := span_of_matchDataFiltered within found'
    rw [Match.end_of_span span, Option.getD_some] at atStart
    subst atStart
    obtain ⟨later, ran, rfl⟩ := Effect.ok_of_map ok
    have empty : (stop == stop) = decide (some stop = some stop) := by simp
    have tries' := tries.found (givesUp_of_ok found') isAnswer.symm span
    rw [empty] at tries'
    refine .found (nextAnswer_of_some within isAnswer.symm) span ?_
    rw [empty]
    exact ih tries' (fun _ ↦ within) ran
  | case4 start skipEmptyAt within matched found' moved ih =>
    have isAnswer := answers start none _ (some matched) (tried _ _ tries within) found'
    obtain ⟨stop, span, -⟩ := span_of_matchDataFiltered within found'
    rw [Match.end_of_span span, Option.getD_some] at moved ih ok
    obtain ⟨later, ran, rfl⟩ := Effect.ok_of_map ok
    have nonempty : (start == stop) = decide (none = some stop) := by simpa using Ne.symm moved
    have tries' := tries.found (givesUp_of_ok found') isAnswer.symm span
    rw [nonempty] at tries'
    refine .found (nextAnswer_of_some within isAnswer.symm) span ?_
    rw [nonempty]
    exact ih tries' (by simp) ran
  | case5 start skipEmptyAt outside =>
    obtain rfl := Except.ok.inj ok
    have unskipped : skipEmptyAt ≠ some start := fun skip ↦ outside (inside skip)
    rw [decide_eq_false unskipped]
    exact .done (nextAnswer_outside (Nat.lt_of_not_le outside))

/-- A scan of the subject is answered if the matches that it tries are. -/
theorem finditerData_answer (ok : pattern.finditerData table subject = .ok found) :
    ScanAnswer semantics table pattern subject 0 false found :=
  scanAnswer_finditerFrom answers tried 0 none .start nofun ok

end Pon.Sre.Pattern
