import Mathlib.Algebra.Group.Nat.Defs
import Mathlib.Data.List.Sort
import Pon.Package.Names

/-!
# The dependency provider

The provider answers the questions of the PubGrub solver about a set of root requirements: which
version of a package to try, what a version depends on, and which package to decide next. It hides
two tables behind shared references, the pinned candidates and the version lists; both survive an
error. Versions, specifiers and markers come from libraries: versions are taken up to PEP 440
equality, an operator and a marker are given by their meaning, and a range is given by the versions
that it contains. Checking out a git URL is a parameter too. Names are normalized by their type, so
the normalization before a table lookup is left out; so is the table of rejected artifacts, which is
read for error reports only.
-/

namespace Pon.Resolve

open Package

inductive Operator where
  | equal | equalStar | exactEqual | notEqual | notEqualStar | tildeEqual
  | lessThan | lessThanEqual | greaterThan | greaterThanEqual
deriving DecidableEq

/-- What the version library provides besides the order of versions. -/
class Versions (V : Type) where
  zero : V
  anyPrerelease : V → Bool
  display : V → Text
  /-- An operator with its version accepts a version. -/
  accepts : Operator → V → V → Bool

structure VersionSpecifier (V : Type) where
  operator : Operator
  version : V

abbrev VersionSpecifiers (V : Type) := List (VersionSpecifier V)

/-- A marker environment: the Python version, and the other marker variables by name. -/
structure MarkerEnvironment (V : Type) where
  pythonVersion : V
  value : Text → Text

abbrev ExtraName := PackageName

inductive VersionOrUrl (V : Type) where
  | versionSpecifier (specifiers : VersionSpecifiers V)
  | url (url : Text)

/-- A PEP 508 requirement; its marker is given by its meaning. -/
structure Requirement (V : Type) where
  name : PackageName
  extras : List ExtraName
  versionOrUrl : Option (VersionOrUrl V)
  evaluateMarkers : MarkerEnvironment V → List ExtraName → Bool

inductive Error where
  | invalidRequirement (message : Text)
  | unsupportedArtifact (message : Text)
  | other (message : Text)
deriving DecidableEq

section Versions

variable {V : Type} [Versions V]

def VersionSpecifiers.contains (specifiers : VersionSpecifiers V) (version : V) : Bool :=
  specifiers.all fun specifier ↦ Versions.accepts specifier.operator specifier.version version

def isExactEqualSpecifier (specifiers : VersionSpecifiers V) : Bool :=
  match specifiers with
  | [specifier] => decide (specifier.operator = .equal)
  | _ => false

def isGitDirectUrl (url : Text) : Bool :=
  ['g', 'i', 't', '+'].isPrefixOf (trimStart url)

/-- A set of versions. -/
abbrev Ranges (V : Type) := V → Bool

variable [DecidableEq V]

def Ranges.empty : Ranges V := fun _ ↦ false

def Ranges.singleton (version : V) : Ranges V := fun other ↦ decide (other = version)

def Ranges.union (a b : Ranges V) : Ranges V := fun version ↦ a version || b version

def Ranges.intersection (a b : Ranges V) : Ranges V := fun version ↦ a version && b version

def specMentionsPrerelease (spec : VersionSpecifiers V) : Bool :=
  spec.any fun specifier ↦ Versions.anyPrerelease specifier.version

/-- The candidates that the specifiers and the prerelease policy accept. -/
def rangeFromSpecifiers (spec : VersionSpecifiers V) (candidates : List V) (allowPrerelease : Bool) :
    Ranges V :=
  let mentionsPrerelease := specMentionsPrerelease spec
  let allCandidatesArePrereleases := candidates.all Versions.anyPrerelease
  (candidates.filter fun candidate ↦
    VersionSpecifiers.contains spec candidate &&
      (allowPrerelease || mentionsPrerelease || !Versions.anyPrerelease candidate ||
        allCandidatesArePrereleases)).foldl
    (fun ranges candidate ↦ ranges.union (.singleton candidate)) Ranges.empty

end Versions

inductive PackageKind where
  | pure
  | native
  | cAbiRefused (reason : Text)
deriving DecidableEq

structure ProjectFile where
  filename : Text
  kind : PackageKind
deriving DecidableEq

structure ArtifactSet where
  wheels : List ProjectFile
  sdist : Option ProjectFile

inductive ResolvedArtifact where
  | wheel (file : ProjectFile)
  | sdist (file : ProjectFile)
  | dir (path : Text) (editable : Bool)
  | vcs (url : Text) (requestedRev : Option Text) (commit dir : Text)

structure CoreMetadata (V : Type) where
  requiresDist : List (Requirement V)
  requiresPython : Option (VersionSpecifiers V)

/-- A candidate of a path or a git source; `artifact` is the artifact that it resolves to. -/
structure PinnedCandidate (V : Type) where
  name : PackageName
  version : V
  kind : PackageKind
  artifact : ResolvedArtifact
  dependencies : List (Requirement V)

inductive ResolvedInput (V : Type) where
  | registry (requirement : Requirement V)
  | pinned (candidate : PinnedCandidate V)

structure CandidateSource (V : Type) where
  availableVersions : PackageName → Bool → Except Error (List V)
  artifacts : PackageName → V → Except Error ArtifactSet
  metadata : PackageName → V → Except Error (CoreMetadata V)

/-- A node of the dependency graph: the root, a distribution, or an extra of one. -/
inductive PonPackage where
  | root
  | dist (name : PackageName)
  | extra (name : PackageName) (extra : ExtraName)
deriving DecidableEq

def PonPackage.distName : PonPackage → Option PackageName
  | .root => none
  | .dist name | .extra name _ => some name

structure Provider (V : Type) where
  source : CandidateSource V
  markers : MarkerEnvironment V
  allowPrerelease : Bool
  rootReqs : List (ResolvedInput V)
  constraints : PackageName → List (VersionSpecifiers V)
  noDeps : Bool
  /-- Checks out a git URL and reads the project in it. -/
  pinGitUrl : Text → Except Error (PinnedCandidate V)
  /-- The text of an error about the Python version that a candidate requires. -/
  pythonMessage : PackageName → V → VersionSpecifiers V → Text

/-- The tables of a provider. `missed` is a ghost: the names that were looked up and found not to be
pinned. -/
structure Cache (V : Type) where
  pinned : PackageName → Option (PinnedCandidate V)
  versions : PackageName × Bool → Option (List V)
  missed : List PackageName

/-- Operations of the provider keep what they have stored when they fail. -/
abbrev ProviderM (V : Type) := ExceptT Error (StateM (Cache V))

abbrev Edge (V : Type) := PonPackage × Ranges V

variable {V : Type}

def liftExcept {α : Type} (result : Except Error α) : ProviderM V α :=
  fun cache ↦ (result, cache)

def pinnedCandidate (name : PackageName) : ProviderM V (Option (PinnedCandidate V)) := fun cache ↦
  match cache.pinned name with
  | some candidate => (.ok (some candidate), cache)
  | none => (.ok none, { cache with missed := name :: cache.missed })

def unsupportedDirectUrl (url : Text) : Error :=
  .invalidRequirement ("direct URL sources are not supported yet: ".toList ++ url)

def validatePinnedRequirementName (candidate : PinnedCandidate V) (requirement : Requirement V) :
    Except Error Unit :=
  if candidate.name = requirement.name then .ok ()
  else .error (.invalidRequirement ("direct URL requirement `".toList ++ requirement.name.val ++
    "` resolved to package `".toList ++ candidate.name.val ++ "`".toList))

/-- Checks out the URL of a git requirement, which must hold a project of the required name. -/
def Provider.checkout (provider : Provider V) (requirement : Requirement V) (url : Text) :
    Except Error (PinnedCandidate V) := do
  let candidate ← provider.pinGitUrl url
  validatePinnedRequirementName candidate requirement
  pure candidate

/-- The candidate of a git requirement; its name is pinned from the first one on. -/
def Provider.ensurePinnedGitRequirement (provider : Provider V) (requirement : Requirement V)
    (url : Text) : ProviderM V (PinnedCandidate V) := fun cache ↦
  match cache.pinned requirement.name with
  | some candidate => (.ok candidate, cache)
  | none =>
      match provider.checkout requirement url with
      | .ok candidate =>
          (.ok candidate,
            { cache with
              pinned := fun name ↦ if name = candidate.name then some candidate else cache.pinned name })
      | .error error => (.error error, { cache with missed := requirement.name :: cache.missed })

/-- The version list of a name, from the table or else from the source. -/
def Provider.listedVersions (provider : Provider V) (key : PackageName × Bool) :
    ProviderM V (List V) := fun cache ↦
  match cache.versions key with
  | some versions => (.ok versions, cache)
  | none =>
      match provider.source.availableVersions key.1 key.2 with
      | .ok versions =>
          (.ok versions,
            { cache with
              versions := fun other ↦ if other = key then some versions else cache.versions other })
      | .error error => (.error error, cache)

section Edges

variable [LinearOrder V] [Versions V]

def Provider.rootRequiresExact (provider : Provider V) (name : PackageName) : Bool :=
  provider.rootReqs.any fun input ↦
    match input with
    | .registry requirement =>
        decide (requirement.name = name) &&
          match requirement.versionOrUrl with
          | some (.versionSpecifier specifiers) => isExactEqualSpecifier specifiers
          | some (.url _) | none => false
    | .pinned candidate => decide (candidate.name = name)

def Provider.versionsForName (provider : Provider V) (name : PackageName) : ProviderM V (List V) := do
  match ← pinnedCandidate name with
  | some candidate => pure [candidate.version]
  | none => provider.listedVersions (name, provider.rootRequiresExact name)

def Provider.versionsForPackage (provider : Provider V) : PonPackage → ProviderM V (List V)
  | .root => pure [Versions.zero]
  | .dist name | .extra name _ => provider.versionsForName name

def Provider.applyConstraints (provider : Provider V) (name : PackageName) (range : Ranges V)
    (candidates : List V) : Ranges V := (provider.constraints name).foldl
    (fun range constraint ↦
      range.intersection (rangeFromSpecifiers constraint candidates provider.allowPrerelease))
    range

def Provider.rangeForRequirement (provider : Provider V) (requirement : Requirement V)
    (candidates : List V) : ProviderM V (Ranges V) := do
  match requirement.versionOrUrl with
  | some (.versionSpecifier specifiers) =>
      pure (rangeFromSpecifiers specifiers candidates provider.allowPrerelease)
  | some (.url url) =>
      if isGitDirectUrl url then
        let candidate ← provider.ensurePinnedGitRequirement requirement url
        pure (.singleton candidate.version)
      else throw (unsupportedDirectUrl url)
  | none => pure (rangeFromSpecifiers [] candidates provider.allowPrerelease)

/-- The edges to a distribution and to its extras, all with the same range. -/
def edgesTo (name : PackageName) (extras : List ExtraName) (range : Ranges V) : List (Edge V) :=
  (.dist name, range) :: extras.map fun extra ↦ (.extra name extra, range)

/-- The git URL of a requirement on a git source. -/
def Requirement.gitUrl (requirement : Requirement V) : Option Text :=
  match requirement.versionOrUrl with
  | some (.url url) => if isGitDirectUrl url then some url else none
  | some (.versionSpecifier _) | none => none

def Provider.addRequirementEdges (provider : Provider V) (edges : List (Edge V))
    (requirement : Requirement V) (extras : List ExtraName) : ProviderM V (List (Edge V)) := do
  if !requirement.evaluateMarkers provider.markers extras then pure edges
  else
    match requirement.gitUrl with
    | some url =>
        let candidate ← provider.ensurePinnedGitRequirement requirement url
        let range := provider.applyConstraints candidate.name (.singleton candidate.version)
          [candidate.version]
        pure (edges ++ edgesTo requirement.name requirement.extras range)
    | none =>
        let candidates ← provider.versionsForName requirement.name
        let range ← provider.rangeForRequirement requirement candidates
        let range := provider.applyConstraints requirement.name range candidates
        pure (edges ++ edgesTo requirement.name requirement.extras range)

def Provider.addAllEdges (provider : Provider V) (extras : List ExtraName) (edges : List (Edge V)) :
    List (Requirement V) → ProviderM V (List (Edge V))
  | [] => pure edges
  | requirement :: rest => do
      let edges ← provider.addRequirementEdges edges requirement extras
      provider.addAllEdges extras edges rest

def Provider.addRootEdges (provider : Provider V) (edges : List (Edge V)) :
    List (ResolvedInput V) → ProviderM V (List (Edge V))
  | [] => pure edges
  | .registry requirement :: rest => do
      let edges ← provider.addRequirementEdges edges requirement []
      provider.addRootEdges edges rest
  | .pinned candidate :: rest => do
      let range := provider.applyConstraints candidate.name (.singleton candidate.version)
        [candidate.version]
      provider.addRootEdges (edges ++ [(.dist candidate.name, range)]) rest

def coreMetadataFromPinned (candidate : PinnedCandidate V) : CoreMetadata V where
  requiresDist := candidate.dependencies
  requiresPython := none

def Provider.metadataForDist (provider : Provider V) (name : PackageName) (version : V) :
    ProviderM V (CoreMetadata V) := do
  match (← pinnedCandidate name).filter fun candidate ↦ decide (candidate.version = version) with
  | some candidate => pure (coreMetadataFromPinned candidate)
  | none =>
      let metadata ← liftExcept (provider.source.metadata name version)
      match metadata.requiresPython with
      | some requiresPython =>
          if !VersionSpecifiers.contains requiresPython provider.markers.pythonVersion then
            throw (.unsupportedArtifact (provider.pythonMessage name version requiresPython))
          else pure metadata
      | none => pure metadata

/-- The requirements in the metadata of a candidate that can be used, in a state of the tables. -/
def Provider.requiresDist (provider : Provider V) (cache : Cache V) (name : PackageName) (version : V) :
    List (Requirement V) :=
  match (cache.pinned name).filter fun candidate ↦ decide (candidate.version = version) with
  | some candidate => candidate.dependencies
  | none =>
      match provider.source.metadata name version with
      | .ok metadata =>
          if metadata.requiresPython.all fun spec ↦
            VersionSpecifiers.contains spec provider.markers.pythonVersion then metadata.requiresDist
          else []
      | .error _ => []

/-- The requirement of a registry input whose markers hold. -/
def ResolvedInput.requirement? (markers : MarkerEnvironment V) : ResolvedInput V → Option (Requirement V)
  | .registry requirement => if requirement.evaluateMarkers markers [] then some requirement else none
  | .pinned _ => none

/-- The requirements of a package whose markers hold, in a state of the tables. A provider without
dependencies looks at the root requirements only. -/
def Provider.requirements (provider : Provider V) (cache : Cache V) :
    PonPackage → V → List (Requirement V)
  | .root, _ => provider.rootReqs.filterMap (ResolvedInput.requirement? provider.markers)
  | .dist name, version =>
      if provider.noDeps then []
      else (provider.requiresDist cache name version).filter
        fun requirement ↦ requirement.evaluateMarkers provider.markers []
  | .extra name extra, version =>
      if provider.noDeps then []
      else (provider.requiresDist cache name version).filter
        fun requirement ↦ requirement.evaluateMarkers provider.markers [extra]

/-- The dependencies that the solver is given: every edge of a package, in order. -/
abbrev DependencyConstraints (V : Type) := List (Edge V)

def Provider.dependencyEdges (provider : Provider V) (package : PonPackage) (version : V) :
    ProviderM V (DependencyConstraints V) := do
  match package with
  | .root => provider.addRootEdges [] provider.rootReqs
  | .dist name =>
      if provider.noDeps then pure []
      else
        let metadata ← provider.metadataForDist name version
        provider.addAllEdges [] [] metadata.requiresDist
  | .extra name extra =>
      let edges := [(.dist name, .singleton version)]
      if provider.noDeps then pure edges
      else
        let metadata ← provider.metadataForDist name version
        provider.addAllEdges [extra] edges metadata.requiresDist

inductive Dependencies (V : Type) where
  | available (edges : DependencyConstraints V)
  | unavailable (message : Text)

def wheelInstallableByPon (file : ProjectFile) : Bool :=
  decide (file.kind = .pure)

def sourceDistributionAllowed (artifacts : ArtifactSet) : Bool :=
  artifacts.sdist.isSome

/-- The first of the versions that is in the range and can be installed. -/
def Provider.firstInstallable (provider : Provider V) (name : PackageName) (range : Ranges V) :
    List V → ProviderM V (Option V)
  | [] => pure none
  | version :: rest => do
      if !range version then provider.firstInstallable name range rest
      else if (← pinnedCandidate name).isSome then pure (some version)
      else
        let artifacts ← liftExcept (provider.source.artifacts name version)
        if artifacts.wheels.any wheelInstallableByPon || sourceDistributionAllowed artifacts then
          pure (some version)
        else provider.firstInstallable name range rest

def Provider.chooseVersion (provider : Provider V) (package : PonPackage) (range : Ranges V) :
    ProviderM V (Option V) := do
  match package.distName with
  | none => pure (if range Versions.zero then some Versions.zero else none)
  | some name =>
      let versions ← provider.versionsForPackage package
      provider.firstInstallable name range (versions.insertionSort (· ≤ ·)).reverse

/-- A candidate that cannot be used has unavailable dependencies. -/
def Dependencies.ofResult : Except Error (DependencyConstraints V) → Except Error (Dependencies V)
  | .ok edges => .ok (.available edges)
  | .error (.unsupportedArtifact message) => .ok (.unavailable message)
  | .error error => .error error

def Provider.getDependencies (provider : Provider V) (package : PonPackage) (version : V) :
    ProviderM V (Dependencies V) := fun cache ↦
  let (result, cache) := (provider.dependencyEdges package version).run cache
  (Dependencies.ofResult result, cache)

def u32Max : ℕ := 2 ^ 32 - 1

/-- How many of the listed versions are in the range; an error counts as none. -/
def versionCount (range : Ranges V) : Except Error (List V) → ℕ
  | .ok versions => (versions.filter range).length
  | .error _ => 0

/-- The priority of a package; the second component counts backwards. -/
def Provider.prioritize (provider : Provider V) (package : PonPackage) (range : Ranges V)
    (conflictCount : ℕ) : ProviderM V (ℕ × ℕ) := fun cache ↦
  let (versions, cache) := (provider.versionsForPackage package).run cache
  let count := versionCount range versions
  (.ok (if count = 0 then (u32Max, 0) else (conflictCount, count)), cache)

inductive Call (V : Type) where
  | prioritize (package : PonPackage) (range : Ranges V) (conflictCount : ℕ)
  | chooseVersion (package : PonPackage) (range : Ranges V)
  | getDependencies (package : PonPackage) (version : V)

inductive Answer (V : Type) where
  | priority (priority : Except Error (ℕ × ℕ))
  | version (version : Except Error (Option V))
  | dependencies (dependencies : Except Error (Dependencies V))

def Provider.answer (provider : Provider V) (call : Call V) (cache : Cache V) : Answer V × Cache V :=
  match call with
  | .prioritize package range conflictCount =>
      ((provider.prioritize package range conflictCount).run cache).map .priority id
  | .chooseVersion package range => ((provider.chooseVersion package range).run cache).map .version id
  | .getDependencies package version =>
      ((provider.getDependencies package version).run cache).map .dependencies id

/-- The tables at the start: the pinned roots. -/
def Provider.initial (provider : Provider V) : Cache V where
  pinned name := (provider.rootReqs.filterMap fun input ↦
    match input with
    | .pinned candidate => if candidate.name = name then some candidate else none
    | .registry _ => none).getLast?
  versions _ := none
  missed := []

/-- The tables after a sequence of calls. -/
def Provider.after (provider : Provider V) (cache : Cache V) (calls : List (Call V)) : Cache V :=
  calls.foldl (fun cache call ↦ (provider.answer call cache).2) cache

/-- The answers to a sequence of calls. -/
def Provider.answers (provider : Provider V) (cache : Cache V) : List (Call V) → List (Answer V)
  | [] => []
  | call :: rest =>
      (provider.answer call cache).1 :: provider.answers (provider.answer call cache).2 rest

end Edges

end Pon.Resolve
