import Mathlib.Data.Prod.Lex
import Pon.Resolve.Provider

/-!
# Version sets and prereleases

The versions that specifiers and constraints leave over. The prerelease policy of PEP 440 lets a
prerelease in where a specifier names one, or where no final release satisfies the specifiers. The
version set asks for less: a prerelease stays out as long as any final release is listed, satisfying or
not, and every constraint asks again on its own.
-/

namespace Pon.Resolve

open Package

theorem foldl_union_iff {V : Type} [DecidableEq V] (accepted : List V) (range : Ranges V) (version : V) :
    accepted.foldl (fun ranges candidate ↦ ranges.union (.singleton candidate)) range version = true ↔
      range version = true ∨ version ∈ accepted := by
  induction accepted generalizing range with
  | nil => simp
  | cons candidate rest ih =>
    rw [List.foldl_cons, ih, List.mem_cons, ← or_assoc]
    apply or_congr_left
    simp [Ranges.union, Ranges.singleton]

variable {V : Type} [Versions V]

/-- The prerelease policy of one specifier set in the version set. -/
def Lets (spec : VersionSpecifiers V) (candidates : List V) (allowPrerelease : Bool) (version : V) :
    Prop :=
  allowPrerelease = true ∨ specMentionsPrerelease spec = true ∨
    Versions.anyPrerelease version = false ∨ candidates.all Versions.anyPrerelease = true

/-- A prerelease is admitted on request, where a specifier names a prerelease, or where no final release
satisfies the specifiers. -/
def Admits (spec : VersionSpecifiers V) (candidates : List V) (allowPrerelease : Bool) (version : V) :
    Prop :=
  allowPrerelease = true ∨ specMentionsPrerelease spec = true ∨
    Versions.anyPrerelease version = false ∨
    ∀ final ∈ candidates, Versions.anyPrerelease final = false →
      VersionSpecifiers.contains spec final = false

/-- No prerelease that satisfies the specifiers is kept out by a final release that does not. -/
def NoFallback (spec : VersionSpecifiers V) (candidates : List V) (allowPrerelease : Bool) : Prop :=
  allowPrerelease = true ∨ specMentionsPrerelease spec = true ∨
    candidates.all Versions.anyPrerelease = true ∨
    (∃ final ∈ candidates, Versions.anyPrerelease final = false ∧
      VersionSpecifiers.contains spec final = true) ∨
    ∀ version ∈ candidates, VersionSpecifiers.contains spec version = false

/-- No prerelease that the specifiers name satisfies constraints of which one names none. -/
def NoSilentConstraint (spec : VersionSpecifiers V) (constraints : List (VersionSpecifiers V))
    (candidates : List V) (allowPrerelease : Bool) : Prop :=
  allowPrerelease = true ∨ candidates.all Versions.anyPrerelease = true ∨
    specMentionsPrerelease spec = false ∨
    (∀ constraint ∈ constraints, specMentionsPrerelease constraint = true) ∨
    ∀ version ∈ candidates, Versions.anyPrerelease version = true →
      VersionSpecifiers.contains spec version = true →
        ∃ constraint ∈ constraints, VersionSpecifiers.contains constraint version = false

variable {spec : VersionSpecifiers V} {candidates : List V}

variable {allowPrerelease : Bool}

theorem Admits.of_lets {version : V} (h : Lets spec candidates allowPrerelease version) :
    Admits spec candidates allowPrerelease version := by
  obtain allowed | named | isFinal | prereleases := h
  · exact Or.inl allowed
  · exact Or.inr (Or.inl named)
  · exact Or.inr (Or.inr (Or.inl isFinal))
  · refine Or.inr (Or.inr (Or.inr fun final mem isFinal ↦ ?_))
    rw [List.all_eq_true.mp prereleases final mem] at isFinal
    cases isFinal

theorem NoFallback.lets (h : NoFallback spec candidates allowPrerelease) {version : V}
    (mem : version ∈ candidates) (accepted : VersionSpecifiers.contains spec version = true)
    (admits : Admits spec candidates allowPrerelease version) :
    Lets spec candidates allowPrerelease version := by
  obtain allowed | named | isFinal | fallback := admits
  · exact Or.inl allowed
  · exact Or.inr (Or.inl named)
  · exact Or.inr (Or.inr (Or.inl isFinal))
  · obtain allowed | named | prereleases | ⟨final, listed, isFinal, satisfies⟩ | none := h
    · exact Or.inl allowed
    · exact Or.inr (Or.inl named)
    · exact Or.inr (Or.inr (Or.inr prereleases))
    · rw [fallback final listed isFinal] at satisfies
      cases satisfies
    · rw [none version mem] at accepted
      cases accepted

variable [LinearOrder V]

theorem rangeFromSpecifiers_iff (spec : VersionSpecifiers V) (candidates : List V)
    (allowPrerelease : Bool) (version : V) :
    rangeFromSpecifiers spec candidates allowPrerelease version = true ↔
      version ∈ candidates ∧ VersionSpecifiers.contains spec version = true ∧
        Lets spec candidates allowPrerelease version := by
  rw [rangeFromSpecifiers, foldl_union_iff, List.mem_filter]
  simp [Ranges.empty, Lets, or_assoc]

theorem applyConstraints_iff (provider : Provider V) (name : PackageName) (range : Ranges V)
    (candidates : List V) (version : V) :
    provider.applyConstraints name range candidates version = true ↔
      range version = true ∧ ∀ constraint ∈ provider.constraints name,
        rangeFromSpecifiers constraint candidates provider.allowPrerelease version = true := by
  rw [Provider.applyConstraints]
  generalize provider.constraints name = constraints
  induction constraints generalizing range with
  | nil => simp
  | cons constraint rest ih =>
    rw [List.foldl_cons, ih, List.forall_mem_cons, ← and_assoc]
    apply and_congr_left'
    simp [Ranges.intersection]

/-- The version set of specifiers holds the listed versions that they accept under the policy, and the
constraints keep its members that satisfy them. -/
structure FollowsPolicy (provider : Provider V) (name : PackageName) (spec : VersionSpecifiers V)
    (candidates : List V) : Prop where
  members : ∀ version,
    rangeFromSpecifiers spec candidates provider.allowPrerelease version = true ↔
      version ∈ candidates ∧ VersionSpecifiers.contains spec version = true ∧
        Admits spec candidates provider.allowPrerelease version
  kept : ∀ version,
    provider.applyConstraints name (rangeFromSpecifiers spec candidates provider.allowPrerelease)
        candidates version = true ↔
      rangeFromSpecifiers spec candidates provider.allowPrerelease version = true ∧
        ∀ constraint ∈ provider.constraints name, VersionSpecifiers.contains constraint version = true

theorem noFallback_of_members
    (members : ∀ version, rangeFromSpecifiers spec candidates allowPrerelease version = true ↔
      version ∈ candidates ∧ VersionSpecifiers.contains spec version = true ∧
        Admits spec candidates allowPrerelease version) :
    NoFallback spec candidates allowPrerelease := by
  by_contra held
  obtain ⟨allowed, named, prereleases, satisfied, accepted⟩ := by
    simpa only [NoFallback, not_or] using held
  refine accepted fun version mem ↦ ?_
  by_contra satisfies
  rw [Bool.not_eq_false] at satisfies
  have fallback : ∀ final ∈ candidates, Versions.anyPrerelease final = false →
      VersionSpecifiers.contains spec final = false := by
    intro final listed isFinal
    by_contra satisfies
    exact satisfied ⟨final, listed, isFinal, Bool.not_eq_false _ ▸ satisfies⟩
  have admits : Admits spec candidates allowPrerelease version := Or.inr (Or.inr (Or.inr fallback))
  have inside := (members version).mpr ⟨mem, satisfies, admits⟩
  obtain allowed' | named' | isFinal | prereleases' := ((rangeFromSpecifiers_iff _ _ _ _).mp inside).2.2
  · exact allowed allowed'
  · exact named named'
  · rw [fallback version mem isFinal] at satisfies
    cases satisfies
  · exact prereleases prereleases'


theorem members_of_noFallback (h : NoFallback spec candidates allowPrerelease) (version : V) :
    rangeFromSpecifiers spec candidates allowPrerelease version = true ↔
      version ∈ candidates ∧ VersionSpecifiers.contains spec version = true ∧
        Admits spec candidates allowPrerelease version := by
  rw [rangeFromSpecifiers_iff]
  constructor
  · intro inside
    exact ⟨inside.1, inside.2.1, .of_lets inside.2.2⟩
  · intro selected
    exact ⟨selected.1, selected.2.1, h.lets selected.1 selected.2.1 selected.2.2⟩

variable {provider : Provider V} {name : PackageName}

/-- The constraints keep the members that satisfy them where each of them lets in what satisfies all. -/
theorem kept_iff :
    (∀ version, provider.applyConstraints name
        (rangeFromSpecifiers spec candidates provider.allowPrerelease) candidates version = true ↔
      rangeFromSpecifiers spec candidates provider.allowPrerelease version = true ∧
        ∀ constraint ∈ provider.constraints name,
          VersionSpecifiers.contains constraint version = true) ↔
      NoSilentConstraint spec (provider.constraints name) candidates provider.allowPrerelease := by
  constructor
  · intro kept
    by_contra dropped
    obtain ⟨allowed, prereleases, named, silent, rejected⟩ := by
      simpa only [NoSilentConstraint, not_or] using dropped
    refine rejected fun version mem isPrerelease accepted ↦ ?_
    by_contra satisfied
    have all : ∀ constraint ∈ provider.constraints name,
        VersionSpecifiers.contains constraint version = true := by
      intro constraint listed
      by_contra fails
      exact satisfied ⟨constraint, listed, Bool.not_eq_true _ ▸ fails⟩
    have member : rangeFromSpecifiers spec candidates provider.allowPrerelease version = true :=
      (rangeFromSpecifiers_iff _ _ _ _).mpr ⟨mem, accepted, Or.inr (Or.inl (Bool.not_eq_false _ ▸ named))⟩
    have lets := ((applyConstraints_iff _ _ _ _ _).mp ((kept version).mpr ⟨member, all⟩)).2
    refine silent fun constraint listed ↦ ?_
    obtain allowed' | names | isFinal | prereleases' :=
      ((rangeFromSpecifiers_iff _ _ _ _).mp (lets constraint listed)).2.2
    · exact absurd allowed' allowed
    · exact names
    · rw [isFinal] at isPrerelease
      cases isPrerelease
    · exact absurd prereleases' prereleases
  · intro agrees version
    rw [applyConstraints_iff]
    apply and_congr_right
    intro member
    obtain ⟨mem, accepted, lets⟩ := (rangeFromSpecifiers_iff _ _ _ _).mp member
    constructor
    · exact fun inside constraint listed ↦
        ((rangeFromSpecifiers_iff _ _ _ _).mp (inside constraint listed)).2.1
    · intro satisfied constraint listed
      refine (rangeFromSpecifiers_iff _ _ _ _).mpr ⟨mem, satisfied constraint listed, ?_⟩
      cases isPrerelease : Versions.anyPrerelease version with
      | false => exact Or.inr (Or.inr (Or.inl isPrerelease))
      | true =>
        obtain allowed | prereleases | unnamed | named | rejected := agrees
        · exact Or.inl allowed
        · exact Or.inr (Or.inr (Or.inr prereleases))
        · obtain allowed | named | isFinal | prereleases := lets
          · exact Or.inl allowed
          · exact absurd (named.symm.trans unnamed) (by decide)
          · exact absurd (isPrerelease.symm.trans isFinal) (by decide)
          · exact Or.inr (Or.inr (Or.inr prereleases))
        · exact Or.inr (Or.inl (named constraint listed))
        · obtain ⟨other, isConstraint, fails⟩ := rejected version mem isPrerelease accepted
          exact absurd ((satisfied other isConstraint).symm.trans fails) (by decide)

/-- A version set follows the policy of PEP 440 exactly where no unsatisfying final release keeps
satisfying prereleases out, and no constraint keeps a prerelease out that the specifiers name. -/
theorem followsPolicy_iff (provider : Provider V) (name : PackageName) (spec : VersionSpecifiers V)
    (candidates : List V) : FollowsPolicy provider name spec candidates ↔
      NoFallback spec candidates provider.allowPrerelease ∧
        NoSilentConstraint spec (provider.constraints name) candidates provider.allowPrerelease := by
  constructor
  · intro follows
    exact ⟨noFallback_of_members follows.members, kept_iff.mp follows.kept⟩
  · intro agrees
    exact ⟨members_of_noFallback agrees.1, kept_iff.mpr agrees.2⟩

/-- The alpha `n.0a1` of a number, and its final release `n.0`. -/
abbrev Release := ℕ ×ₗ Bool

def alpha (n : ℕ) : Release := toLex (n, false)

def release (n : ℕ) : Release := toLex (n, true)

instance : Versions Release where
  zero := release 0
  anyPrerelease version := !(ofLex version).2
  display version := (Nat.repr (ofLex version).1).toList
  accepts
    | .equal, version, candidate | .equalStar, version, candidate
    | .exactEqual, version, candidate => candidate == version
    | .notEqual, version, candidate | .notEqualStar, version, candidate => candidate != version
    | .lessThan, version, candidate => decide (candidate < version)
    | .lessThanEqual, version, candidate => decide (candidate ≤ version)
    | .greaterThan, version, candidate => decide (version < candidate)
    | .greaterThanEqual, version, candidate | .tildeEqual, version, candidate =>
        decide (version ≤ candidate)

/-- A provider without packages and with one constraint, `< 3.0`, on every name. -/
def belowThree : Provider Release where
  source :=
    { availableVersions := fun _ _ ↦ .ok []
      artifacts := fun _ _ ↦ .ok { wheels := [], sdist := none }
      metadata := fun _ _ ↦ .ok { requiresDist := [], requiresPython := none } }
  markers := { pythonVersion := release 3, value := fun _ ↦ [] }
  allowPrerelease := false
  rootReqs := []
  constraints _ := [[⟨.lessThan, release 3⟩]]
  noDeps := false
  pinGitUrl url := .error (unsupportedDirectUrl url)
  pythonMessage _ _ _ := []

/-- Of `1.0` and `2.0a1` no final release is above `1.0`, and of a requirement `>= 2.0a1` nothing is left
below `3.0`. -/
theorem prerelease_kept_out :
    ¬FollowsPolicy belowThree ⟨['a'], by decide⟩ [⟨.greaterThan, release 1⟩] [release 1, alpha 2] ∧
      ¬FollowsPolicy belowThree ⟨['a'], by decide⟩ [⟨.greaterThanEqual, alpha 2⟩] [release 1, alpha 2] := by
  constructor
  · intro follows
    have agrees := noFallback_of_members follows.members
    unfold NoFallback at agrees
    exact absurd agrees (by decide)
  · intro follows
    have agrees := kept_iff.mp follows.kept
    unfold NoSilentConstraint at agrees
    exact absurd agrees (by decide)

end Pon.Resolve
