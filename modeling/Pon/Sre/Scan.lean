import Pon.Sre.Matching

/-!
# Scans

A scan is a search that is repeated behind each match. It ends, and its matches stand one behind the
other. The loop of `finditer` is a scan of the whole subject.
-/

namespace Pon.Sre

namespace Pattern

variable (table : CharTable) (pattern : Pattern) (subject : List Word)

/-- The next match from a position on. Directly behind an empty match, another empty one does not count. -/
def nextMatch (start : ℕ) (afterEmpty : Bool) : Except ExecutionError (Option Match) :=
  if afterEmpty then do
    match ← pattern.matchDataFiltered table subject start none true with
    | some matched => pure (some matched)
    | none => pattern.searchDataFrom table subject (start + 1)
  else pattern.searchDataFrom table subject start

/-- The outcome of repeated searching. -/
inductive Scan : ℕ → Bool → Except ExecutionError (List Match) → Prop
  | limit {start : ℕ} {afterEmpty : Bool} {error : ExecutionError}
      (next : pattern.nextMatch table subject start afterEmpty = .error error) :
      Scan start afterEmpty (.error error)
  | done {start : ℕ} {afterEmpty : Bool}
      (next : pattern.nextMatch table subject start afterEmpty = .ok none) : Scan start afterEmpty (.ok [])
  | found {start : ℕ} {afterEmpty : Bool} {matched : Match} {first last : ℕ}
      {later : Except ExecutionError (List Match)}
      (next : pattern.nextMatch table subject start afterEmpty = .ok (some matched))
      (span : matched.span 0 = some (some (first, last))) (scan : Scan last (first == last) later) :
      Scan start afterEmpty (later.map (matched :: ·))

variable {table pattern subject}

/-- A search tries its first position, and goes on at the next one. -/
theorem nextMatch_eq {start : ℕ} (inside : start ≤ subject.length) (afterEmpty : Bool) :
    pattern.nextMatch table subject start afterEmpty = (do
      match ← pattern.matchDataFiltered table subject start none afterEmpty with
      | some matched => pure (some matched)
      | none => pattern.nextMatch table subject (start + 1) false) := by
  cases afterEmpty with
  | true => rfl
  | false =>
    change pattern.searchDataFrom table subject start = _
    have more : subject.length + 1 - start = subject.length + 1 - (start + 1) + 1 := by omega
    rw [searchDataFrom, more, List.range'_succ]
    rfl

theorem nextMatch_of_none {start : ℕ} (inside : start ≤ subject.length) {afterEmpty : Bool}
    (tried : pattern.matchDataFiltered table subject start none afterEmpty = .ok none) :
    pattern.nextMatch table subject start afterEmpty =
      pattern.nextMatch table subject (start + 1) false := by
  rw [nextMatch_eq inside, tried]
  rfl

variable {matched : Match}

theorem nextMatch_of_some {start : ℕ} (inside : start ≤ subject.length) {afterEmpty : Bool}
    (tried : pattern.matchDataFiltered table subject start none afterEmpty = .ok (some matched)) :
    pattern.nextMatch table subject start afterEmpty = .ok (some matched) := by
  rw [nextMatch_eq inside, tried]
  rfl

theorem nextMatch_of_error {start : ℕ} (inside : start ≤ subject.length) {afterEmpty : Bool}
    {error : ExecutionError}
    (tried : pattern.matchDataFiltered table subject start none afterEmpty = .error error) :
    pattern.nextMatch table subject start afterEmpty = .error error := by
  rw [nextMatch_eq inside, tried]
  rfl

theorem nextMatch_outside {start : ℕ} (outside : subject.length < start) :
    pattern.nextMatch table subject start false = .ok none := by
  change pattern.searchDataFrom table subject start = _
  rw [searchDataFrom, Nat.sub_eq_zero_of_le outside]
  rfl

/-- What a search finds lies behind its start, and moves on behind an empty match. -/
theorem span_of_nextMatch {start : ℕ} {afterEmpty : Bool} (inside : start ≤ subject.length)
    (next : pattern.nextMatch table subject start afterEmpty = .ok (some matched)) :
    ∃ first last, matched.span 0 = some (some (first, last)) ∧ start ≤ first ∧ first ≤ last ∧
      last ≤ subject.length ∧ (afterEmpty → start < last) ∧ matched.subject = subject := by
  cases tried : pattern.matchDataFiltered table subject start none afterEmpty with
  | error error =>
    rw [nextMatch_of_error inside tried] at next
    cases next
  | ok result =>
    cases result with
    | some found =>
      rw [nextMatch_of_some inside tried] at next
      obtain rfl := Option.some.inj (Except.ok.inj next)
      obtain ⟨stop, span, before, after, moved, same⟩ := span_of_matchDataFiltered inside tried
      exact ⟨start, stop, span, le_rfl, before, after,
        fun skip ↦ lt_of_le_of_ne before (moved skip).symm, same⟩
    | none =>
      rw [nextMatch_of_none inside tried] at next
      by_cases more : start < subject.length
      · obtain ⟨first, last, span, before, order, after, -, same⟩ := span_of_nextMatch more next
        exact ⟨first, last, span, (Nat.le_succ _).trans before, order, after,
          fun _ ↦ before.trans order, same⟩
      · rw [nextMatch_outside (by omega)] at next
        cases next
termination_by subject.length - start

namespace Scan

variable {result : Except ExecutionError (List Match)} {afterEmpty : Bool} {start : ℕ}

theorem unique {result' : Except ExecutionError (List Match)}
    (scan : pattern.Scan table subject start afterEmpty result)
    (scan' : pattern.Scan table subject start afterEmpty result') : result = result' := by
  induction scan generalizing result' with
  | limit next =>
    cases scan' with
    | limit next' => exact congrArg Except.error (Except.error.inj (next.symm.trans next'))
    | done next' | found next' => cases next.symm.trans next'
  | done next =>
    cases scan' with
    | done next' => rfl
    | limit next' | found next' => cases next.symm.trans next'
  | found next span _ ih =>
    cases scan' with
    | limit next' | done next' => cases next.symm.trans next'
    | found next' span' scan' =>
      obtain rfl := Option.some.inj (Except.ok.inj (next.symm.trans next'))
      obtain ⟨rfl, rfl⟩ := Prod.mk.inj (Option.some.inj (Option.some.inj (span.symm.trans span')))
      rw [ih scan']

/-- A scan depends on what it finds first. -/
theorem congr {start' : ℕ} {afterEmpty' : Bool}
    (same : pattern.nextMatch table subject start' afterEmpty' =
      pattern.nextMatch table subject start afterEmpty)
    (scan : pattern.Scan table subject start afterEmpty result) :
    pattern.Scan table subject start' afterEmpty' result := by
  cases scan with
  | limit next => exact .limit (same.trans next)
  | done next => exact .done (same.trans next)
  | found next span later => exact .found (same.trans next) span later

theorem found_limit {first last : ℕ} {error : ExecutionError}
    (next : pattern.nextMatch table subject start afterEmpty = .ok (some matched))
    (span : matched.span 0 = some (some (first, last)))
    (limit : pattern.Scan table subject last (first == last) (.error error)) :
    pattern.Scan table subject start afterEmpty (.error error) :=
  show pattern.Scan table subject start afterEmpty (Except.map (matched :: ·) (.error error)) from
    .found next span limit

end Scan

/-- A match that ends where or before the next one starts, of which one is not empty. -/
def Precedes (matched next : Match) : Prop :=
  ∃ start stop start' stop', matched.span 0 = some (some (start, stop)) ∧
    next.span 0 = some (some (start', stop')) ∧ stop ≤ start' ∧ start < stop'

/-- A match from a position on, which ends behind it where an empty match does not count. -/
def Lies (subject : List Word) (low : ℕ) (afterEmpty : Bool) (matched : Match) : Prop :=
  ∃ start stop, matched.span 0 = some (some (start, stop)) ∧ low ≤ start ∧ start ≤ stop ∧
    stop ≤ subject.length ∧ (afterEmpty → low < stop) ∧ matched.subject = subject

namespace Scan

variable {result : Except ExecutionError (List Match)} {found : List Match}

variable {afterEmpty : Bool} {start : ℕ} (scan : pattern.Scan table subject start afterEmpty result)
  (inside : start ≤ subject.length) (ok : result = .ok found)
include scan inside ok

theorem lies :
    ∀ matched ∈ found, Lies subject start afterEmpty matched := by
  induction scan generalizing found with
  | limit => cases ok
  | done =>
    obtain rfl := Except.ok.inj ok
    exact List.forall_mem_nil _
  | @found start afterEmpty matched first last later next span scan ih =>
    obtain ⟨first', last', span', before, order, after, moved, same⟩ := span_of_nextMatch inside next
    obtain ⟨rfl, rfl⟩ := Prod.mk.inj (Option.some.inj (Option.some.inj (span.symm.trans span')))
    cases later with
    | error => cases ok
    | ok rest =>
      obtain rfl := Except.ok.inj ok
      refine List.forall_mem_cons.mpr ⟨⟨first, last, span, before, order, after, moved, same⟩, ?_⟩
      intro matched' mem
      obtain ⟨start', stop', span', before', order', after', -, same'⟩ := ih after rfl matched' mem
      exact ⟨start', stop', span', before.trans (order.trans before'), order', after',
        fun skip ↦ (moved skip).trans_le (before'.trans order'), same'⟩

theorem ordered : found.Pairwise Precedes := by
  induction scan generalizing found with
  | limit => cases ok
  | done =>
    obtain rfl := Except.ok.inj ok
    exact List.Pairwise.nil
  | @found start afterEmpty matched first last later next span scan ih =>
    obtain ⟨first', last', span', before, order, after, -, -⟩ := span_of_nextMatch inside next
    obtain ⟨rfl, rfl⟩ := Prod.mk.inj (Option.some.inj (Option.some.inj (span.symm.trans span')))
    cases later with
    | error => cases ok
    | ok rest =>
      obtain rfl := Except.ok.inj ok
      refine List.pairwise_cons.mpr ⟨fun matched' mem ↦ ?_, ih after rfl⟩
      obtain ⟨start', stop', span', before', order', -, moved, -⟩ := scan.lies after rfl matched' mem
      refine ⟨first, last, start', stop', span, span', before', ?_⟩
      by_cases empty : first = last
      · exact empty ▸ moved (beq_iff_eq.mpr empty)
      · exact (lt_of_le_of_ne order empty).trans_le (before'.trans order')

end Scan

/-- The loop scans, and tells after an empty match that it was empty. -/
theorem scan_finditerFrom (start : ℕ) (skipEmptyAt : Option ℕ)
    (inside : skipEmptyAt = some start → start ≤ subject.length) :
    pattern.Scan table subject start (decide (skipEmptyAt = some start))
      (pattern.finditerFrom table subject start skipEmptyAt) := by
  fun_induction finditerFrom table pattern subject start skipEmptyAt with
  | case1 start skipEmptyAt within error found => exact .limit (nextMatch_of_error within found)
  | case2 start skipEmptyAt within found ih =>
    have later := ih (by simp)
    exact later.congr (nextMatch_of_none within found)
  | case3 start skipEmptyAt within matched found atStart ih =>
    obtain ⟨stop, span, -⟩ := span_of_matchDataFiltered within found
    rw [Match.end_of_span span, Option.getD_some] at atStart
    subst atStart
    have later := ih fun _ ↦ within
    rw [decide_eq_true rfl] at later
    refine .found (nextMatch_of_some within found) span ?_
    rwa [beq_self_eq_true]
  | case4 start skipEmptyAt within matched found moved ih =>
    obtain ⟨stop, span, -⟩ := span_of_matchDataFiltered within found
    rw [Match.end_of_span span, Option.getD_some] at moved ih ⊢
    refine .found (nextMatch_of_some within found) span ?_
    rw [beq_eq_false_iff_ne.mpr (Ne.symm moved)]
    exact ih (by simp)
  | case5 start skipEmptyAt outside =>
    have unskipped : skipEmptyAt ≠ some start := fun skip ↦ outside (inside skip)
    rw [decide_eq_false unskipped]
    exact .done (nextMatch_outside (Nat.lt_of_not_le outside))

variable (table pattern subject) in
theorem scan_finditerData :
    pattern.Scan table subject 0 false (pattern.finditerData table subject) :=
  scan_finditerFrom 0 none nofun

/-- A scan from anywhere ends. -/
theorem exists_scan {start : ℕ} (inside : start ≤ subject.length) :
    ∃ result, pattern.Scan table subject start false result :=
  ⟨_, scan_finditerFrom start none fun _ ↦ inside⟩

end Pattern

end Pon.Sre
