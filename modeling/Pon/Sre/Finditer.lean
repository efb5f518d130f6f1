import Pon.Sre.Scan

/-!
# Scanning between two positions

`finditer` scans from the start of the subject whatever the position is, and then leaves out the matches
that start before the position. What it yields is the scan from the position unless a match that is left
out reaches over the start of one that the scan finds. Splitting and substituting scan whole subjects.
-/

namespace Pon.Sre.Pattern

variable {table : CharTable} {pattern : Pattern} {subject : List Word}

/-! ## Arriving at a position -/

variable (table pattern subject) in
/-- The scan from a place on tries a match at this place first among those at or after a position. -/
inductive Arrives (pos : ℕ) : ℕ → Bool → ℕ → Prop
  | here {start : ℕ} (there : pos ≤ start) : Arrives pos start false start
  | missed {start stop : ℕ} {afterEmpty : Bool} (before : start < pos)
      (tried : pattern.matchDataFiltered table subject start none afterEmpty = .ok none)
      (later : Arrives pos (start + 1) false stop) : Arrives pos start afterEmpty stop
  | found {start last stop : ℕ} {afterEmpty : Bool} {matched : Match} (before : start < pos)
      (tried : pattern.matchDataFiltered table subject start none afterEmpty = .ok (some matched))
      (span : matched.span 0 = some (some (start, last)))
      (later : Arrives pos last (start == last) stop) : Arrives pos start afterEmpty stop

/-- The matches of a scan that start at or after a position. -/
def atOrAfter (pos : ℕ) (found : List Match) : List Match :=
  found.filter fun matched ↦ (matched.span 0).join.any fun span ↦ pos ≤ span.1

variable {pos stop start last : ℕ} {found : List Match} {used : ℤ}

variable {endpos : ℕ} {result : Except ExecutionError (List Match)} {limit : ℤ} {repl : Repl}
  {replaced : Match → List Word}

theorem runFinditer_eq (ordered : pos ≤ endpos) :
    pattern.runFinditer table subject pos endpos =
      (pattern.finditerData table (subject.take endpos)).map (atOrAfter pos) := by
  unfold runFinditer
  rw [if_neg (Nat.not_lt_of_le ordered)]
  cases pattern.finditerData table (subject.take endpos) <;> rfl

variable (table pattern subject) in
theorem arrives_or_limit (pos start : ℕ) (skipEmptyAt : Option ℕ) (inside : pos ≤ subject.length)
    (unskipped : pos ≤ start → skipEmptyAt ≠ some start) :
    (∃ stop, pattern.Arrives table subject pos start (decide (skipEmptyAt = some start)) stop) ∨
      pattern.Scan table subject start (decide (skipEmptyAt = some start)) (.error .executionLimit) := by
  have here {start : ℕ} {skipEmptyAt : Option ℕ} (there : pos ≤ start)
      (unskipped : pos ≤ start → skipEmptyAt ≠ some start) :
      pattern.Arrives table subject pos start (decide (skipEmptyAt = some start)) start := by
    rw [decide_eq_false (unskipped there)]
    exact .here there
  fun_induction finditerFrom table pattern subject start skipEmptyAt with
  | case1 start skipEmptyAt within error found =>
    cases error
    exact Or.inr (.limit (nextMatch_of_error within found))
  | case2 start skipEmptyAt within found ih =>
    obtain there | before := le_or_gt pos start
    · exact Or.inl ⟨start, here there unskipped⟩
    · obtain ⟨stop, arrives⟩ | limit := ih fun _ ↦ by simp
      · exact Or.inl ⟨stop, .missed before found arrives⟩
      · exact Or.inr (limit.congr (nextMatch_of_none within found))
  | case3 start skipEmptyAt within matched found atStart ih =>
    obtain there | before := le_or_gt pos start
    · exact Or.inl ⟨start, here there unskipped⟩
    · obtain ⟨stop, span, -⟩ := span_of_matchDataFiltered within found
      rw [Match.end_of_span span, Option.getD_some] at atStart
      subst atStart
      have empty : (stop == stop) = decide (some stop = some stop) := by simp
      obtain ⟨stop', arrives⟩ | limit := ih fun there ↦ absurd before (Nat.not_lt_of_le there)
      · exact Or.inl ⟨stop', .found before found span (empty ▸ arrives)⟩
      · exact Or.inr (.found_limit (nextMatch_of_some within found) span (empty ▸ limit))
  | case4 start skipEmptyAt within matched found moved ih =>
    obtain there | before := le_or_gt pos start
    · exact Or.inl ⟨start, here there unskipped⟩
    · obtain ⟨stop, span, -⟩ := span_of_matchDataFiltered within found
      rw [Match.end_of_span span, Option.getD_some] at moved ih
      have nonempty : (start == stop) = decide (none = some stop) := by simpa using Ne.symm moved
      obtain ⟨stop', arrives⟩ | limit := ih fun _ ↦ by simp
      · exact Or.inl ⟨stop', .found before found span (nonempty ▸ arrives)⟩
      · exact Or.inr (.found_limit (nextMatch_of_some within found) span (nonempty ▸ limit))
  | case5 start skipEmptyAt outside =>
    have there : pos ≤ start := inside.trans (Nat.le_of_not_le outside)
    exact Or.inl ⟨start, here there unskipped⟩

namespace Arrives

variable {pos start stop : ℕ} {afterEmpty : Bool}
  (arrives : pattern.Arrives table subject pos start afterEmpty stop)
include arrives

theorem le : pos ≤ stop := by
  induction arrives with
  | here there => exact there
  | missed _ _ _ ih | found _ _ _ _ ih => exact ih

theorem inside
    (within : pos ≤ subject.length) (low : start ≤ subject.length) : stop ≤ subject.length := by
  induction arrives with
  | here => exact low
  | missed before _ _ ih => exact ih (before.trans_le within)
  | found _ tried span _ ih =>
    obtain ⟨last', span', -, after, -⟩ := span_of_matchDataFiltered low tried
    obtain ⟨-, rfl⟩ := Prod.mk.inj (Option.some.inj (Option.some.inj (span.symm.trans span')))
    exact ih after

/-- From the place of arrival on, the scan is what is left of the scan that arrives. -/
theorem scan (within : pos ≤ subject.length) (low : start ≤ subject.length)
    (scan : pattern.Scan table subject start afterEmpty result) :
    pattern.Scan table subject stop false (result.map (atOrAfter pos)) := by
  induction arrives generalizing result with
  | @here start there =>
    have kept : result.map (atOrAfter pos) = result := by
      cases result with
      | error => rfl
      | ok found =>
        refine congrArg Except.ok (List.filter_eq_self.mpr fun matched mem ↦ ?_)
        obtain ⟨first, last, span, before, -⟩ := scan.lies low rfl matched mem
        rw [span]
        exact decide_eq_true (there.trans before)
    rwa [kept]
  | missed before tried _ ih =>
    exact ih (before.trans_le within) (scan.congr (nextMatch_of_none low tried).symm)
  | @found start last stop afterEmpty matched before tried span _ ih =>
    have next := nextMatch_of_some low tried
    obtain ⟨last', span', -, after, -⟩ := span_of_matchDataFiltered low tried
    obtain ⟨-, rfl⟩ := Prod.mk.inj (Option.some.inj (Option.some.inj (span.symm.trans span')))
    cases scan with
    | limit next' | done next' => cases next.symm.trans next'
    | @found _ _ _ _ _ rest next' span'' later =>
      obtain rfl := Option.some.inj (Except.ok.inj (next.symm.trans next'))
      obtain ⟨rfl, rfl⟩ := Prod.mk.inj (Option.some.inj (Option.some.inj (span.symm.trans span'')))
      have dropped : (rest.map (matched :: ·)).map (atOrAfter pos) = rest.map (atOrAfter pos) := by
        cases rest with
        | error => rfl
        | ok found =>
          refine congrArg Except.ok (List.filter_cons_of_neg ?_)
          rw [span]
          exact Bool.eq_false_iff.mp (decide_eq_false (Nat.not_le_of_lt before))
      rw [dropped]
      exact ih after later

end Arrives

/-! ## Where the scans differ -/

/-- No match starts from a position on before another one. -/
def NoMatch (table : CharTable) (pattern : Pattern) (subject : List Word) (pos stop : ℕ) : Prop :=
  ∀ start, pos ≤ start → start < stop → pattern.matchData table subject start none = .ok none

theorem nextMatch_of_noMatch (order : pos ≤ stop) (inside : stop ≤ subject.length)
    (none : pattern.NoMatch table subject pos stop) :
    pattern.nextMatch table subject pos false = pattern.nextMatch table subject stop false := by
  induction order using Nat.decreasingInduction with
  | self => rfl
  | of_succ start before ih =>
    rw [nextMatch_of_none (before.le.trans inside) (none start le_rfl before)]
    exact ih fun later after ↦ none later ((Nat.le_succ _).trans after)

/-- A scan finds nothing before a later position, reports the limit, or finds a match before it. -/
theorem Scan.noMatch_or (order : pos ≤ stop) (inside : stop ≤ subject.length)
    (scan : pattern.Scan table subject pos false result) :
    pattern.NoMatch table subject pos stop ∨ result = .error .executionLimit ∨
      ∃ start last matched later, result = .ok (matched :: later) ∧
        matched.span 0 = some (some (start, last)) ∧ start < stop := by
  induction order using Nat.decreasingInduction with
  | self => exact Or.inl fun _ after before ↦ absurd before (Nat.not_lt_of_le after)
  | of_succ start before ih =>
    have low : start ≤ subject.length := before.le.trans inside
    cases tried : pattern.matchDataFiltered table subject start none false with
    | error error =>
      cases error
      exact Or.inr (Or.inl (scan.unique (.limit (nextMatch_of_error low tried))))
    | ok found =>
      cases found with
      | none =>
        refine (ih (scan.congr (nextMatch_of_none low tried).symm)).imp_left fun later ↦ ?_
        intro start' after before'
        obtain rfl | more := Nat.eq_or_lt_of_le after
        · exact tried
        · exact later start' more before'
      | some matched =>
        right
        obtain ⟨last, span, -⟩ := span_of_matchDataFiltered low tried
        have next := nextMatch_of_some low tried
        cases scan with
        | limit next' | done next' => cases next.symm.trans next'
        | @found _ _ _ _ _ rest next' span' later =>
          obtain rfl := Option.some.inj (Except.ok.inj (next.symm.trans next'))
          cases rest with
          | error error =>
            cases error
            exact Or.inl rfl
          | ok rest => exact Or.inr ⟨start, last, matched, rest, rfl, span, before⟩

/-- `finditer` from a position scans from there exactly when the place at which it arrives is not past
the start of a match, unless both give up. -/
theorem scan_runFinditer_iff (ordered : pos ≤ endpos) (inside : endpos ≤ subject.length) :
    pattern.Scan table (subject.take endpos) pos false (pattern.runFinditer table subject pos endpos) ↔
      (∃ stop, pattern.Arrives table (subject.take endpos) pos 0 false stop ∧
        pattern.NoMatch table (subject.take endpos) pos stop) ∨
      pattern.Scan table (subject.take endpos) 0 false (.error .executionLimit) ∧
        pattern.Scan table (subject.take endpos) pos false (.error .executionLimit) := by
  have length : (subject.take endpos).length = endpos := List.length_take_of_le inside
  have within : pos ≤ (subject.take endpos).length := length.symm ▸ ordered
  have whole := scan_finditerData table pattern (subject.take endpos)
  rw [runFinditer_eq ordered]
  constructor
  · intro scan
    obtain ⟨stop, arrives⟩ | limit :=
      arrives_or_limit table pattern (subject.take endpos) pos 0 none within fun _ ↦ nofun
    · have rest := arrives.scan within (Nat.zero_le _) whole
      have after := arrives.inside within (Nat.zero_le _)
      obtain noMatch | isLimit | ⟨start, last, matched, later, isOk, span, before⟩ :=
        scan.noMatch_or arrives.le after
      · exact Or.inl ⟨stop, arrives, noMatch⟩
      · rw [isLimit] at scan
        refine Or.inr ⟨?_, scan⟩
        cases all : pattern.finditerData table (subject.take endpos) with
        | ok found =>
          rw [all] at isLimit
          cases isLimit
        | error error =>
          rw [all] at whole
          cases error
          exact whole
      · rw [isOk] at rest
        obtain ⟨start', last', span', low, -⟩ := rest.lies after rfl matched List.mem_cons_self
        obtain ⟨rfl, rfl⟩ := Prod.mk.inj (Option.some.inj (Option.some.inj (span.symm.trans span')))
        exact absurd before (Nat.not_lt_of_le low)
    · have isLimit := whole.unique limit
      rw [isLimit] at scan
      exact Or.inr ⟨limit, scan⟩
  · rintro (⟨stop, arrives, noMatch⟩ | ⟨limit, limit'⟩)
    · have rest := arrives.scan within (Nat.zero_le _) whole
      exact rest.congr (nextMatch_of_noMatch arrives.le (arrives.inside within (Nat.zero_le _)) noMatch)
    · rw [whole.unique limit]
      exact limit'

/-! ## The texts between matches -/

/-- Texts with one of the others behind each but the last. -/
def weave {α : Type} : List (List α) → List (List α) → List α
  | [], _ => []
  | text :: texts, [] => text ++ weave texts []
  | text :: texts, other :: others => text ++ other ++ weave texts others

/-- The texts before each match, from the end of the match before it, and the text after the last one. -/
def textsBetween (subject : List Word) : ℕ → List Match → List (List Word)
  | last, [] => [subject.drop last]
  | last, matched :: later =>
      let span := (matched.span 0).join.getD (last, last)
      sliceValue subject last span.1 :: textsBetween subject span.2 later

/-- The first matches, up to a limit of which some are used up; a limit that is not positive is none. -/
def firstOf (limit used : ℤ) (found : List Match) : List Match :=
  if 0 < limit then found.take (limit - used).toNat else found

/-- Matches of a subject one behind the other, from a position on. -/
def Chain (subject : List Word) : ℕ → List Match → Prop
  | _, [] => True
  | last, matched :: later => ∃ start stop, matched.span 0 = some (some (start, stop)) ∧
      last ≤ start ∧ start ≤ stop ∧ stop ≤ subject.length ∧ matched.subject = subject ∧
      Chain subject stop later

theorem sliceValue_append (order : start ≤ stop) :
    sliceValue subject start stop ++ subject.drop stop = subject.drop start := by
  have behind : subject.drop stop = (subject.drop start).drop (stop - start) := by
    rw [List.drop_drop, Nat.add_sub_cancel' order]
  rw [sliceValue, behind, List.take_append_drop]

theorem sliceBytes_eq (order : start ≤ stop) (inside : stop ≤ subject.length) :
    sliceBytes subject start stop = sliceValue subject start stop := by
  unfold sliceBytes
  dsimp only
  rw [Nat.min_eq_left (order.trans inside), Nat.min_eq_left inside, Nat.max_eq_right order]

theorem sliceBytes_rest (inside : start ≤ subject.length) :
    sliceBytes subject start subject.length = subject.drop start := by
  rw [sliceBytes_eq inside le_rfl, sliceValue]
  exact List.take_of_length_le (List.length_drop ▸ le_rfl)

theorem Scan.chain {afterEmpty : Bool} (scan : pattern.Scan table subject start afterEmpty result)
    (inside : start ≤ subject.length) (ok : result = .ok found) : Chain subject start found := by
  induction scan generalizing found with
  | limit => cases ok
  | done =>
    obtain rfl := Except.ok.inj ok
    exact trivial
  | @found start afterEmpty matched first last later next span scan ih =>
    obtain ⟨first', last', span', before, order, after, -, same⟩ := span_of_nextMatch inside next
    obtain ⟨rfl, rfl⟩ := Prod.mk.inj (Option.some.inj (Option.some.inj (span.symm.trans span')))
    cases later with
    | error => cases ok
    | ok rest =>
      obtain rfl := Except.ok.inj ok
      exact ⟨first, last, span, before, order, after, same, ih after rfl⟩

theorem Chain.take (chain : Chain subject last found) (count : ℕ) :
    Chain subject last (found.take count) := by
  induction found generalizing last count with
  | nil => rwa [List.take_nil]
  | cons matched later ih =>
    cases count with
    | zero => exact trivial
    | succ count =>
      obtain ⟨start, stop, span, before, order, after, same, chain⟩ := chain
      exact ⟨start, stop, span, before, order, after, same, ih chain count⟩

/-- The texts between the matches and the matched texts make up the subject. -/
theorem Chain.weave_eq (chain : Chain subject last found) :
    weave (textsBetween subject last found) (found.map fun matched ↦ (matched.group 0).getD []) =
      subject.drop last := by
  induction found generalizing last with
  | nil => exact List.append_nil _
  | cons matched later ih =>
    obtain ⟨start, stop, span, before, order, after, same, chain⟩ := chain
    have text : (matched.group 0).getD [] = sliceValue subject start stop := by
      rw [Match.group, span, same]
      rfl
    calc weave (textsBetween subject last (matched :: later)) _
        = sliceValue subject last start ++ sliceValue subject start stop ++ subject.drop stop := by
          rw [textsBetween, span, List.map_cons, text]
          exact congrArg _ (ih chain)
      _ = subject.drop last := by
          rw [List.append_assoc, sliceValue_append order, sliceValue_append before]

/-! ## Splitting and substituting -/

theorem firstOf_nil (limit used : ℤ) : firstOf limit used [] = [] := by
  unfold firstOf
  rw [List.take_nil, ite_self]

theorem firstOf_cons_of_used (full : 0 < limit ∧ limit ≤ used) (matched : Match)
    (later : List Match) : firstOf limit used (matched :: later) = [] := by
  unfold firstOf
  rw [if_pos full.1, Int.toNat_eq_zero.mpr (Int.sub_nonpos_of_le full.2), List.take_zero]

theorem firstOf_cons (more : ¬(0 < limit ∧ limit ≤ used)) (matched : Match) (later : List Match) :
    firstOf limit used (matched :: later) = matched :: firstOf limit (used + 1) later := by
  unfold firstOf
  split_ifs with positive
  · have left : (limit - used).toNat = (limit - (used + 1)).toNat + 1 := by omega
    rw [left, List.take_succ_cons]
  · rfl

section

variable (chain : Chain subject last found)
include chain

theorem Chain.firstOf (limit used : ℤ) :
    Chain subject last (firstOf limit used found) := by
  unfold Pattern.firstOf
  split_ifs
  · exact chain.take _
  · exact chain

/-- What `split` yields for a match besides the text before it. -/
def groupValues (pattern : Pattern) (matched : Match) : List (Option (List Word)) :=
  (List.range' 1 pattern.groups).map matched.group

theorem splitItems_eq {maxsplit : ℤ}
    (inside : last ≤ subject.length) :
    pattern.splitItems subject maxsplit found last used =
      weave ((textsBetween subject last (firstOf maxsplit used found)).map fun text ↦ [some text])
        ((firstOf maxsplit used found).map pattern.groupValues) := by
  induction found generalizing last used with
  | nil =>
    rw [firstOf_nil, splitItems, sliceBytes_rest inside]
    rfl
  | cons matched later ih =>
    obtain ⟨start, stop, span, before, order, after, -, chain⟩ := chain
    unfold splitItems
    by_cases full : 0 < maxsplit ∧ maxsplit ≤ used
    · rw [if_pos full, firstOf_cons_of_used full, sliceBytes_rest inside]
      rfl
    · rw [if_neg full, firstOf_cons full, span, textsBetween, span]
      change some (sliceBytes subject last start) :: pattern.groupValues matched ++ _ = _
      rw [ih chain after, sliceBytes_eq before (order.trans after)]
      rfl

theorem subLoop_eq {count : ℤ} (inside : last ≤ subject.length)
    (replaces : ∀ matched ∈ found, repl.replacement matched = .ok (replaced matched))
    (out : List Word) :
    subLoop subject repl count found last used out =
      .ok (out ++ weave (textsBetween subject last (firstOf count used found))
          ((firstOf count used found).map replaced),
        used + (firstOf count used found).length) := by
  induction found generalizing last used out with
  | nil =>
    rw [firstOf_nil, subLoop, sliceBytes_rest inside]
    simp [textsBetween, weave]
  | cons matched later ih =>
    obtain ⟨start, stop, span, before, order, after, -, chain⟩ := chain
    obtain ⟨here, further⟩ := List.forall_mem_cons.mp replaces
    unfold subLoop
    by_cases full : 0 < count ∧ count ≤ used
    · rw [if_pos full, firstOf_cons_of_used full, sliceBytes_rest inside]
      simp [textsBetween, weave]
    · rw [if_neg full, firstOf_cons full, span, textsBetween, span]
      change (repl.replacement matched >>= fun text ↦ subLoop subject repl count later stop (used + 1)
        (out ++ sliceBytes subject last start ++ text)) = _
      rw [here]
      change subLoop subject repl count later stop (used + 1)
        (out ++ sliceBytes subject last start ++ replaced matched) = _
      rw [ih chain after further, sliceBytes_eq before (order.trans after), List.map_cons, weave,
        List.length_cons]
      refine congrArg Except.ok (Prod.ext ?_ ?_)
      · simp only [List.append_assoc, Option.join_some, Option.getD_some]
      · push_cast
        omega

end

/-! ## The scan between two positions -/

/-- Scanning as it is asked for: from a position, on the subject up to another one. -/
structure Scans (table : CharTable) (pattern : Pattern) (subject : List Word) (pos endpos : ℕ) : Prop where
  /-- `finditer` repeats the search from the position. -/
  finditer : pattern.Scan table (subject.take endpos) pos false (pattern.runFinditer table subject pos endpos)
  findall : ∀ result, pattern.Scan table (subject.take endpos) pos false result →
    pattern.findall table subject pos endpos = result.map (List.map pattern.findallItem)
  /-- The scan ends. -/
  ends : ∃ result, pattern.Scan table (subject.take endpos) pos false result
  lies : ∀ found, pattern.runFinditer table subject pos endpos = .ok found →
    ∀ matched ∈ found, Lies (subject.take endpos) pos false matched
  ordered : ∀ found, pattern.runFinditer table subject pos endpos = .ok found → found.Pairwise Precedes
  /-- The texts between the matches that are used and the matched texts make up the subject. -/
  texts : ∀ found limit, pattern.runFinditer table subject 0 subject.length = .ok found →
    weave (textsBetween subject 0 (firstOf limit 0 found))
      ((firstOf limit 0 found).map fun matched ↦ (matched.group 0).getD []) = subject
  split : ∀ found maxsplit, pattern.runFinditer table subject 0 subject.length = .ok found →
    pattern.split table subject maxsplit =
      .ok (weave ((textsBetween subject 0 (firstOf maxsplit 0 found)).map fun text ↦ [some text])
        ((firstOf maxsplit 0 found).map pattern.groupValues))
  sub : ∀ found repl count replaced, pattern.runFinditer table subject 0 subject.length = .ok found →
    (∀ matched ∈ found, repl.replacement matched = .ok (replaced matched)) →
    pattern.sub table subject repl count =
      .ok (weave (textsBetween subject 0 (firstOf count 0 found)) ((firstOf count 0 found).map replaced),
        (firstOf count 0 found).length)

/-- From the start of the subject to its end, `finditer` scans. -/
theorem scan_runFinditer_whole :
    pattern.Scan table subject 0 false (pattern.runFinditer table subject 0 subject.length) := by
  have scan : pattern.Scan table (subject.take subject.length) 0 false
      (pattern.runFinditer table subject 0 subject.length) :=
    (scan_runFinditer_iff (Nat.zero_le _) le_rfl).mpr
      (Or.inl ⟨0, .here le_rfl, fun _ _ before ↦ absurd before (Nat.not_lt_zero _)⟩)
  rwa [List.take_length] at scan

section

variable (ok : pattern.runFinditer table subject 0 subject.length = .ok found)
include ok

theorem chain_runFinditer :
    Chain subject 0 found :=
  scan_runFinditer_whole.chain (Nat.zero_le _) ok

theorem texts_eq (limit : ℤ) :
    weave (textsBetween subject 0 (firstOf limit 0 found))
      ((firstOf limit 0 found).map fun matched ↦ (matched.group 0).getD []) = subject :=
  ((chain_runFinditer ok).firstOf limit 0).weave_eq

theorem split_eq (maxsplit : ℤ) :
    pattern.split table subject maxsplit =
      .ok (weave ((textsBetween subject 0 (firstOf maxsplit 0 found)).map fun text ↦ [some text])
        ((firstOf maxsplit 0 found).map pattern.groupValues)) := by
  unfold split
  rw [ok]
  exact congrArg Except.ok (splitItems_eq (chain_runFinditer ok) (Nat.zero_le _))

theorem sub_eq (count : ℤ)
    (replaces : ∀ matched ∈ found, repl.replacement matched = .ok (replaced matched)) :
    pattern.sub table subject repl count =
      .ok (weave (textsBetween subject 0 (firstOf count 0 found)) ((firstOf count 0 found).map replaced),
        (firstOf count 0 found).length) := by
  unfold sub
  rw [ok]
  cases found with
  | nil => simp [firstOf_nil, textsBetween, weave]
  | cons matched later =>
    dsimp only
    rw [subLoop_eq (chain_runFinditer ok) (Nat.zero_le _) replaces, List.nil_append, zero_add]

end

/-- `finditer` and `findall` scan from the position exactly when the place at which the scan from the
start of the subject arrives is not past the start of a match, unless both scans give up. -/
theorem scans_iff {pos endpos : ℕ} (order : pos ≤ endpos) (inside : endpos ≤ subject.length) :
    pattern.Scans table subject pos endpos ↔
      (∃ stop, pattern.Arrives table (subject.take endpos) pos 0 false stop ∧
        pattern.NoMatch table (subject.take endpos) pos stop) ∨
      pattern.Scan table (subject.take endpos) 0 false (.error .executionLimit) ∧
        pattern.Scan table (subject.take endpos) pos false (.error .executionLimit) := by
  have within : pos ≤ (subject.take endpos).length := (List.length_take_of_le inside).symm ▸ order
  refine ⟨fun scans ↦ (scan_runFinditer_iff order inside).mp scans.finditer, fun condition ↦ ?_⟩
  have scan := (scan_runFinditer_iff order inside).mpr condition
  refine
    { finditer := scan
      findall := fun result scan' ↦ ?_
      ends := exists_scan within
      lies := fun found ok ↦ scan.lies within ok
      ordered := fun found ok ↦ scan.ordered within ok
      texts := fun found limit ok ↦ texts_eq ok limit
      split := fun found maxsplit ok ↦ split_eq ok maxsplit
      sub := fun found repl count replaced ok ↦ sub_eq ok count }
  rw [findall, scan.unique scan']
  cases result <;> rfl

/-- The pattern `aa`. -/
def twice : Pattern where
  groups := 0
  groupindex := []
  indexgroup := []
  nodes := [.literal 97 .exact, .literal 97 .exact]

theorem execute_twice (subject : List Word) (state : MatchState) :
    execute asciiTable subject twice.nodes state false =
      .ok (if subject[state.pos]? = some 97 ∧ subject[state.pos + 1]? = some 97 then
        [state.advance.advance] else []) := by
  have literal (unit : Option Word) : matchesLiteral asciiTable unit 97 .exact = decide (unit = some 97) :=
    Bool.eq_iff_iff.mpr (by cases unit <;> simp [matchesLiteral, foldUnit])
  rw [execute]
  by_cases first : subject[state.pos]? = some 97
  · by_cases second : subject[state.pos + 1]? = some 97
    · simp [runThreads, nextNode, follow, literal, first, second, twice, stepLimit, MatchState.advance]
    · simp [runThreads, nextNode, follow, literal, first, second, twice, stepLimit, MatchState.advance]
  · simp [runThreads, nextNode, follow, literal, first, twice, stepLimit]

theorem matchData_twice (subject : List Word) (start : ℕ) :
    twice.matchData asciiTable subject start none =
      .ok (if subject[start]? = some 97 ∧ subject[start + 1]? = some 97 then
        some (twice.buildMatch subject start ⟨start + 2, [], none⟩) else none) := by
  have ran := execute_twice subject (twice.startState start)
  change execute asciiTable subject twice.nodes (twice.startState start) false =
    .ok (if subject[start]? = some 97 ∧ subject[start + 1]? = some 97 then _ else []) at ran
  unfold matchData matchDataFiltered
  change (execute asciiTable subject twice.nodes (twice.startState start) false >>= _) = _
  rw [ran]
  split_ifs <;> rfl

/-- On `aaa`, the pattern `aa` matches from 1 on, and `finditer` from 1 on finds nothing. -/
theorem finditer_misses_overlapped : ¬twice.Scans asciiTable [97, 97, 97] 1 3 := by
  intro scans
  have found (start : ℕ) (low : start ≤ 1) : twice.nextMatch asciiTable [97, 97, 97] start false =
      .ok (some (twice.buildMatch [97, 97, 97] start ⟨start + 2, [], none⟩)) := by
    obtain rfl | rfl := Nat.le_one_iff_eq_zero_or_eq_one.mp low
    · exact nextMatch_of_some (by decide) (matchData_twice [97, 97, 97] 0)
    · exact nextMatch_of_some (by decide) (matchData_twice [97, 97, 97] 1)
  have atEnd : twice.nextMatch asciiTable [97, 97, 97] 3 false = .ok none := by
    rw [nextMatch_of_none (by decide) (matchData_twice [97, 97, 97] 3), nextMatch_outside (by decide)]
  have behind : twice.nextMatch asciiTable [97, 97, 97] 2 false = .ok none := by
    rw [nextMatch_of_none (by decide) (matchData_twice [97, 97, 97] 2), atEnd]
  have whole : twice.finditerData asciiTable [97, 97, 97] =
      .ok [twice.buildMatch [97, 97, 97] 0 ⟨2, [], none⟩] :=
    (scan_finditerData asciiTable twice [97, 97, 97]).unique (.found (found 0 (by decide)) rfl (.done behind))
  have nothing : twice.runFinditer asciiTable [97, 97, 97] 1 3 = .ok [] := by
    rw [runFinditer_eq (by decide)]
    exact congrArg (Except.map (atOrAfter 1)) whole
  have scan := scans.finditer
  rw [nothing] at scan
  have more : twice.Scan asciiTable [97, 97, 97] 1 false
      (.ok [twice.buildMatch [97, 97, 97] 1 ⟨3, [], none⟩]) := .found (found 1 le_rfl) rfl (.done atEnd)
  cases scan.unique more

/-- The pattern `aa` on `aaaa` from 2 on: no match reaches over a start. -/
theorem scans_iff_twice : twice.Scans asciiTable [97, 97, 97, 97] 2 4 := by
  refine (@scans_iff asciiTable twice [97, 97, 97, 97] 2 4 (by decide) (by decide)).mpr (Or.inl ⟨2, ?_, ?_⟩)
  · exact .found (by decide) (matchData_twice [97, 97, 97, 97] 0) rfl (.here le_rfl)
  · exact fun start after before ↦ absurd before (Nat.not_lt_of_le after)

end Pon.Sre.Pattern
