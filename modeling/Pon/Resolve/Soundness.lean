import Pon.Resolve.Resolution

/-!
# What a resolution guarantees

The solver is known only by its contract: the packages that it selects satisfy the dependencies that
it has been given, every edge of them. A resolution is sound if no distribution is pinned to a version
whose metadata the solver has already taken from the index.
-/

namespace Pon.Resolve

open Package

variable {V : Type}

/-! ## Demands -/

def ResolvedInput.name : ResolvedInput V → PackageName
  | .registry requirement => requirement.name
  | .pinned candidate => candidate.name

def ResolvedInput.extras : ResolvedInput V → List ExtraName
  | .registry requirement => requirement.extras
  | .pinned _ => []

/-- The marker of the input holds. -/
def ResolvedInput.applies (markers : MarkerEnvironment V) (extras : List ExtraName) :
    ResolvedInput V → Bool
  | .registry requirement => requirement.evaluateMarkers markers extras
  | .pinned _ => true

/-- A version satisfies the specifiers of a requirement, or is the version of a pinned source. -/
def ResolvedInput.SatisfiedBy [Versions V] (version : V) : ResolvedInput V → Prop
  | .registry requirement =>
      match requirement.versionOrUrl with
      | some (.versionSpecifier specifiers) => VersionSpecifiers.contains specifiers version = true
      | some (.url _) | none => True
  | .pinned candidate => version = candidate.version

section Demands

variable [LinearOrder V] [Versions V]

/-- What a package demands: the root its inputs, other packages their requirements. -/
def Provider.demands (provider : Provider V) (cache : Cache V) :
    PonPackage → V → List (ResolvedInput V)
  | .root, _ => provider.rootReqs.filter (ResolvedInput.applies provider.markers [])
  | .dist name, version => (provider.requirements cache (.dist name) version).map .registry
  | .extra name extra, version => (provider.requirements cache (.extra name extra) version).map .registry

/-- The versions among which a name is looked up, before or after it has been pinned. -/
def Provider.Candidates (provider : Provider V) (cache : Cache V) (name : PackageName)
    (candidates : List V) : Prop :=
  (∃ candidate, cache.pinned name = some candidate ∧ candidates = [candidate.version]) ∨
    provider.source.availableVersions name (provider.rootRequiresExact name) = .ok candidates

/-- A version is in the range that the provider makes of specifiers for a name. -/
def Provider.InRange (provider : Provider V) (cache : Cache V) (name : PackageName)
    (specifiers : VersionSpecifiers V) (version : V) : Prop :=
  ∃ candidates, provider.Candidates cache name candidates ∧
    provider.applyConstraints name
      (rangeFromSpecifiers specifiers candidates provider.allowPrerelease) candidates version = true

/-- A version is in the range that the provider makes of a demand. -/
def Provider.Admits (provider : Provider V) (cache : Cache V) (version : V) : ResolvedInput V → Prop
  | .registry requirement =>
      match requirement.versionOrUrl with
      | some (.versionSpecifier specifiers) =>
          provider.InRange cache requirement.name specifiers version
      | none => provider.InRange cache requirement.name [] version
      | some (.url _) => ∃ candidate, cache.pinned requirement.name = some candidate ∧
          provider.applyConstraints requirement.name (.singleton candidate.version)
            [candidate.version] version = true
  | .pinned candidate =>
      provider.applyConstraints candidate.name (.singleton candidate.version) [candidate.version]
        version = true

/-! ## Soundness -/

/-- The contract of the solver: its answer satisfies the dependencies that it has been given. -/
structure Provider.Solves (provider : Provider V) (calls : List (Call V))
    (selected : List (PonPackage × V)) : Prop where
  root : (PonPackage.root, Versions.zero) ∈ selected
  unique : (selected.map Prod.fst).Nodup
  satisfied : ∀ package version, (package, version) ∈ selected → ∃ (i : ℕ) (edges : _),
    calls[i]? = some (.getDependencies package version) ∧
    (provider.answers provider.initial calls)[i]? = some (.dependencies (.ok (.available edges))) ∧
    ∀ other range, (other, range) ∈ edges → ∃ chosen, (other, chosen) ∈ selected ∧ range chosen = true

/-- Every demand of a selected package is met, an extra comes with its distribution, and the
resolution lists every selected distribution at one version. -/
structure Provider.Sound (provider : Provider V) (cache : Cache V) (selected : List (PonPackage × V))
    (resolution : Resolution V) : Prop where
  demands : ∀ package version, (package, version) ∈ selected →
    ∀ demand ∈ provider.demands cache package version, ∃ chosen,
      (.dist demand.name, chosen) ∈ selected ∧ demand.SatisfiedBy chosen ∧
      (∀ constraint ∈ provider.constraints demand.name,
        VersionSpecifiers.contains constraint chosen = true) ∧
      ∀ extra ∈ demand.extras, ∃ version, (.extra demand.name extra, version) ∈ selected
  extras : ∀ name extra version, (.extra name extra, version) ∈ selected →
    (.dist name, version) ∈ selected
  unique : (resolution.dists.map ResolvedDist.name).Nodup
  dists : ∀ name version, (name, version) ∈ resolution.dists.map (fun dist ↦ (dist.name, dist.version)) ↔
    (.dist name, version) ∈ selected

/-- The condition on a question, after earlier ones: a git requirement that it expands pins no
distribution at a version that has been expanded. -/
def Provider.Unread (provider : Provider V) (cache : Cache V) (earlier : List (Call V)) : Call V → Prop
  | .prioritize .. | .chooseVersion .. => True
  | .getDependencies package version =>
      ∀ requirement ∈ provider.requirements cache package version,
        cache.pinned requirement.name = none → ∀ url candidate, requirement.gitUrl = some url →
        provider.checkout requirement url = .ok candidate →
        ∀ other, other.distName = some requirement.name →
          Call.getDependencies other candidate.version ∉ Call.getDependencies package version :: earlier

/-- Every question of a sequence meets the condition. -/
def Provider.AsksUnread (provider : Provider V) : Cache V → List (Call V) → List (Call V) → Prop
  | _, _, [] => True
  | cache, earlier, call :: rest =>
      provider.Unread cache earlier call ∧
        provider.AsksUnread (provider.answer call cache).2 (call :: earlier) rest

end Demands

/-! ## The edges of a package -/

section Edges

variable [LinearOrder V] [Versions V]

/-- The edges are those of the demands, one after the other, with ranges that the demands admit. -/
def Provider.EdgesOf (provider : Provider V) (final : Cache V) :
    List (ResolvedInput V) → List (Edge V) → Prop
  | [], edges => edges = []
  | demand :: rest, edges => ∃ range more,
      edges = edgesTo demand.name demand.extras range ++ more ∧
        (∀ version, range version = true → provider.Admits final version demand) ∧
        provider.EdgesOf final rest more

variable {provider : Provider V} {final : Cache V}

variable {edges result : List (Edge V)} {demands : List (ResolvedInput V)} {name : PackageName}
  {version : V} {cache : Cache V} {requirement : Requirement V} {extras : List ExtraName}

variable {front back : List (ResolvedInput V)} {demand : ResolvedInput V} {candidates : List V}
  {url : Text}

theorem Provider.EdgesOf.append {more : List (Edge V)} (h : provider.EdgesOf final front edges)
    (h' : provider.EdgesOf final back more) :
    provider.EdgesOf final (front ++ back) (edges ++ more) := by
  induction front generalizing edges with
  | nil =>
    obtain rfl : edges = [] := h
    exact h'
  | cons demand rest ih =>
    obtain ⟨range, others, rfl, hadmits, hrest⟩ := h
    exact ⟨range, others ++ more, by simp, hadmits, ih hrest⟩

/-- A demand has an edge to its distribution, and edges to its extras with the same range. -/
theorem Provider.EdgesOf.edge (h : provider.EdgesOf final demands edges)
    (hdemand : demand ∈ demands) : ∃ range, (PonPackage.dist demand.name, range) ∈ edges ∧
      (∀ version, range version = true → provider.Admits final version demand) ∧
      ∀ extra ∈ demand.extras, (PonPackage.extra demand.name extra, range) ∈ edges := by
  induction demands generalizing edges with
  | nil => cases hdemand
  | cons first rest ih =>
    obtain ⟨range, more, rfl, hadmits, hrest⟩ := h
    rcases List.mem_cons.mp hdemand with rfl | hin
    · refine ⟨range, List.mem_cons_self, hadmits, fun extra hextra ↦ ?_⟩
      exact List.mem_append_left _ (List.mem_cons_of_mem _ (List.mem_map.mpr ⟨extra, hextra, rfl⟩))
    · obtain ⟨other, hedge, hother, hextras⟩ := ih hrest hin
      exact ⟨other, List.mem_append_right _ hedge, hother,
        fun extra hextra ↦ List.mem_append_right _ (hextras extra hextra)⟩

/-! ## Ranges -/

theorem applyConstraints_contains (name : PackageName) (range : Ranges V) (candidates : List V)
    (h : provider.applyConstraints name range candidates version = true) :
    range version = true ∧ ∀ constraint ∈ provider.constraints name,
      rangeFromSpecifiers constraint candidates provider.allowPrerelease version = true := by
  unfold Provider.applyConstraints at h
  generalize provider.constraints name = constraints at h
  induction constraints generalizing range with
  | nil => exact ⟨h, fun _ hmem ↦ by cases hmem⟩
  | cons constraint rest ih =>
    obtain ⟨hfirst, hrest⟩ := ih _ h
    have hboth : range version = true ∧
        rangeFromSpecifiers constraint candidates provider.allowPrerelease version = true := by
      simpa [Ranges.intersection] using hfirst
    refine ⟨hboth.1, fun other hother ↦ ?_⟩
    rcases List.mem_cons.mp hother with rfl | hin
    · exact hboth.2
    · exact hrest other hin

theorem rangeFromSpecifiers_contains {spec : VersionSpecifiers V} {allowPrerelease : Bool}
    (h : rangeFromSpecifiers spec candidates allowPrerelease version = true) :
    VersionSpecifiers.contains spec version = true := by
  have hfold : ∀ (accepted : List V) (range : Ranges V),
      accepted.foldl (fun ranges candidate ↦ Ranges.union ranges (.singleton candidate)) range version =
        true → range version = true ∨ version ∈ accepted := by
    intro accepted
    induction accepted with
    | nil => exact fun _ hrange ↦ Or.inl hrange
    | cons candidate rest ih =>
      intro range hrange
      rcases ih _ hrange with hfirst | hin
      · rcases Bool.or_eq_true_iff.mp hfirst with hold | hnew
        · exact Or.inl hold
        · exact Or.inr (by simp [of_decide_eq_true hnew])
      · exact Or.inr (List.mem_cons_of_mem _ hin)
  rcases hfold _ _ h with hempty | hmem
  · cases hempty
  · have haccepted := (List.mem_filter.mp hmem).2
    exact (Bool.and_eq_true_iff.mp haccepted).1

theorem Provider.Admits.satisfiedBy (h : provider.Admits final version demand) :
    demand.SatisfiedBy version := by
  cases demand with
  | pinned candidate =>
    change version = candidate.version
    simpa [Ranges.singleton] using (applyConstraints_contains _ _ _ h).1
  | registry requirement =>
    dsimp only [Provider.Admits] at h
    dsimp only [ResolvedInput.SatisfiedBy]
    rcases hkind : requirement.versionOrUrl with _ | specifiers | url
    · trivial
    · simp only [hkind] at h
      obtain ⟨candidates, _, happly⟩ := h
      exact rangeFromSpecifiers_contains (applyConstraints_contains _ _ _ happly).1
    · trivial

theorem Provider.Admits.constraints (h : provider.Admits final version demand) :
    ∀ constraint ∈ provider.constraints demand.name,
    VersionSpecifiers.contains constraint version = true := by
  have hall : ∀ (name : PackageName) (range : Ranges V) (candidates : List V),
      provider.applyConstraints name range candidates version = true →
      ∀ constraint ∈ provider.constraints name, VersionSpecifiers.contains constraint version = true :=
    fun name range candidates happly constraint hconstraint ↦
      rangeFromSpecifiers_contains
        ((applyConstraints_contains name range candidates happly).2 constraint hconstraint)
  cases demand with
  | pinned candidate => exact hall _ _ _ h
  | registry requirement =>
    unfold Provider.Admits at h
    dsimp only at h
    split at h
    all_goals
      obtain ⟨_, _, happly⟩ := h
      exact hall _ _ _ happly

/-! ## Expanding a package -/

omit [LinearOrder V] [Versions V] in
theorem Provider.versionsForName_candidates (hvalid : provider.ValidCache cache)
    (h : (provider.versionsForName name cache).1 = .ok candidates)
    (hfinal : Grows (provider.versionsForName name cache).2 final) :
    provider.Candidates final name candidates := by
  unfold Provider.versionsForName at h hfinal
  rw [bind_apply] at h hfinal
  unfold pinnedCandidate at h hfinal
  cases hpinned : cache.pinned name with
  | some candidate =>
    rw [hpinned] at h hfinal
    cases h
    exact Or.inl ⟨candidate, hfinal.pinned name candidate hpinned, rfl⟩
  | none =>
    rw [hpinned] at h
    have hvalid' : provider.ValidCache { cache with missed := name :: cache.missed } :=
      ⟨hvalid.listed, hvalid.named⟩
    exact Or.inr ((provider.listedVersions_result hvalid' _).symm.trans h)

theorem Provider.addRegistryEdges_spec (hvalid : provider.ValidCache cache)
    (hmarker : requirement.evaluateMarkers provider.markers extras = true)
    (hgit : requirement.gitUrl = none)
    (h : (provider.addRequirementEdges edges requirement extras cache).1 = .ok result)
    (hfinal : Grows (provider.addRequirementEdges edges requirement extras cache).2 final) :
    ∃ more, result = edges ++ more ∧ provider.EdgesOf final [.registry requirement] more := by
  have hrun : provider.addRequirementEdges edges requirement extras cache =
      (provider.versionsForName requirement.name >>= fun candidates ↦
        provider.rangeForRequirement requirement candidates >>= fun range ↦
          pure (edges ++ edgesTo requirement.name requirement.extras
            (provider.applyConstraints requirement.name range candidates))) cache := by
    simp only [Provider.addRequirementEdges, hmarker, hgit]
    rfl
  rw [hrun] at h hfinal
  obtain ⟨candidates, hversions, hrest⟩ := of_bind_ok h
  rw [hrest, bind_apply] at h hfinal
  unfold Provider.rangeForRequirement at h hfinal
  rcases hkind : requirement.versionOrUrl with _ | specifiers | url
  case some.url =>
    have hplain : isGitDirectUrl url = false := by
      simpa [Requirement.gitUrl, hkind] using hgit
    simp only [hkind, hplain] at h
    cases h
  all_goals
    rw [hkind] at h hfinal
    cases h
    refine ⟨_, rfl, _, [], (List.append_nil _).symm, fun version hversion ↦ ?_, rfl⟩
    simp only [Provider.Admits, hkind]
    exact ⟨candidates, provider.versionsForName_candidates hvalid hversions hfinal, hversion⟩

omit [LinearOrder V] [Versions V] in
theorem Requirement.gitUrl_eq_some (h : requirement.gitUrl = some url) :
    requirement.versionOrUrl = some (.url url) := by
  unfold Requirement.gitUrl at h
  cases hkind : requirement.versionOrUrl with
  | none => simp [hkind] at h
  | some kind =>
    cases kind with
    | versionSpecifier _ => simp [hkind] at h
    | url other =>
      simp only [hkind] at h
      split at h
      · rw [Option.some.inj h]
      · cases h

theorem Provider.addGitEdges_spec (hvalid : provider.ValidCache cache)
    (hmarker : requirement.evaluateMarkers provider.markers extras = true)
    (hgit : requirement.gitUrl = some url)
    (h : (provider.addRequirementEdges edges requirement extras cache).1 = .ok result)
    (hfinal : Grows (provider.addRequirementEdges edges requirement extras cache).2 final) :
    ∃ more, result = edges ++ more ∧ provider.EdgesOf final [.registry requirement] more := by
  rw [provider.addRequirementEdges_git _ _ hmarker hgit, bind_apply, provider.ensurePinned_apply] at h hfinal
  have hkind := requirement.gitUrl_eq_some hgit
  have hedges : ∀ candidate : PinnedCandidate V, candidate.name = requirement.name →
      final.pinned requirement.name = some candidate →
      provider.EdgesOf final [.registry requirement] (edgesTo requirement.name requirement.extras
        (provider.applyConstraints candidate.name (.singleton candidate.version)
          [candidate.version])) := by
    intro candidate hname hpinned
    refine ⟨_, [], (List.append_nil _).symm, fun version hversion ↦ ?_, rfl⟩
    simp only [Provider.Admits, hkind]
    exact ⟨candidate, hpinned, hname ▸ hversion⟩
  cases hpinned : cache.pinned requirement.name with
  | some candidate =>
    rw [hpinned] at h hfinal
    cases h
    exact ⟨_, rfl, hedges candidate (hvalid.named _ _ hpinned) (hfinal.pinned _ _ hpinned)⟩
  | none =>
    rw [hpinned] at h hfinal
    cases hcheckout : provider.checkout requirement url with
    | error _ =>
      rw [hcheckout] at h
      cases h
    | ok candidate =>
      rw [hcheckout] at h hfinal
      cases h
      exact ⟨_, rfl, hedges candidate (provider.checkout_name hcheckout)
        (hfinal.pinned _ _ (if_pos rfl))⟩

theorem Provider.addRequirementEdges_spec (hvalid : provider.ValidCache cache)
    (h : (provider.addRequirementEdges edges requirement extras cache).1 = .ok result)
    (hfinal : Grows (provider.addRequirementEdges edges requirement extras cache).2 final) :
    ∃ more, result = edges ++ more ∧ provider.EdgesOf final
      (([requirement].filter fun requirement ↦
        requirement.evaluateMarkers provider.markers extras).map .registry) more := by
  rw [List.filter_singleton]
  cases hmarker : requirement.evaluateMarkers provider.markers extras with
  | false =>
    rw [provider.addRequirementEdges_unmarked _ _ hmarker] at h
    cases h
    exact ⟨[], (List.append_nil _).symm, rfl⟩
  | true =>
    cases hgit : requirement.gitUrl with
    | none => exact provider.addRegistryEdges_spec hvalid hmarker hgit h hfinal
    | some url => exact provider.addGitEdges_spec hvalid hmarker hgit h hfinal

theorem Provider.addAllEdges_spec (extras : List ExtraName) (requirements : List (Requirement V))
    (hvalid : provider.ValidCache cache)
    (h : (provider.addAllEdges extras edges requirements cache).1 = .ok result)
    (hfinal : Grows (provider.addAllEdges extras edges requirements cache).2 final) :
    ∃ more, result = edges ++ more ∧ provider.EdgesOf final
      ((requirements.filter fun requirement ↦
        requirement.evaluateMarkers provider.markers extras).map .registry) more := by
  induction requirements generalizing cache edges with
  | nil =>
    cases h
    exact ⟨[], (List.append_nil _).symm, rfl⟩
  | cons requirement rest ih =>
    unfold Provider.addAllEdges at h hfinal
    obtain ⟨middle, hmiddle, hrest⟩ := of_bind_ok h
    rw [hrest] at h hfinal
    have hsteady := Steady.addRequirementEdges provider edges requirement extras
    have hgrows := ((Steady.addAllEdges provider extras rest middle).grows _).trans hfinal
    obtain ⟨first, rfl, hfirst⟩ := provider.addRequirementEdges_spec hvalid hmiddle hgrows
    obtain ⟨more, rfl, hmore⟩ := ih (hsteady.valid cache hvalid) h hfinal
    refine ⟨first ++ more, List.append_assoc _ _ _, ?_⟩
    rw [← List.singleton_append, List.filter_append, List.map_append]
    exact hfirst.append hmore

theorem Provider.addRootEdges_spec (inputs : List (ResolvedInput V))
    (hvalid : provider.ValidCache cache)
    (h : (provider.addRootEdges edges inputs cache).1 = .ok result)
    (hfinal : Grows (provider.addRootEdges edges inputs cache).2 final) :
    ∃ more, result = edges ++ more ∧ provider.EdgesOf final
      (inputs.filter (ResolvedInput.applies provider.markers [])) more := by
  induction inputs generalizing cache edges with
  | nil =>
    cases h
    exact ⟨[], (List.append_nil _).symm, rfl⟩
  | cons input rest ih =>
    cases input with
    | pinned candidate =>
      obtain ⟨more, rfl, hmore⟩ := ih hvalid h hfinal
      refine ⟨_, List.append_assoc _ _ _, ?_⟩
      have happlies : ResolvedInput.applies provider.markers [] (.pinned candidate) = true := rfl
      rw [List.filter_cons, if_pos happlies]
      exact ⟨_, more, rfl, fun version hversion ↦ hversion, hmore⟩
    | registry requirement =>
      unfold Provider.addRootEdges at h hfinal
      obtain ⟨middle, hmiddle, hrest⟩ := of_bind_ok h
      rw [hrest] at h hfinal
      have hsteady := Steady.addRequirementEdges provider edges requirement []
      have hgrows := ((Steady.addRootEdges provider rest middle).grows _).trans hfinal
      obtain ⟨first, rfl, hfirst⟩ := provider.addRequirementEdges_spec hvalid hmiddle hgrows
      obtain ⟨more, rfl, hmore⟩ := ih (hsteady.valid cache hvalid) h hfinal
      refine ⟨first ++ more, List.append_assoc _ _ _, ?_⟩
      have hsame : [ResolvedInput.registry requirement].filter (ResolvedInput.applies provider.markers []) =
          ([requirement].filter fun requirement ↦
            requirement.evaluateMarkers provider.markers []).map .registry :=
        List.filter_map (l := [requirement])
      rw [← List.singleton_append, List.filter_append, hsame]
      exact hfirst.append hmore

/-- The edge of an extra to its own distribution. -/
def ownEdges (version : V) : PonPackage → List (Edge V)
  | .extra name _ => [(.dist name, .singleton version)]
  | .root | .dist _ => []

theorem Provider.expand_spec (hvalid : provider.ValidCache cache) (name : PackageName) (version : V)
    (extras : List ExtraName)
    (h : ((provider.metadataForDist name version >>= fun metadata ↦
      provider.addAllEdges extras edges metadata.requiresDist) cache).1 = .ok result)
    (hfinal : Grows ((provider.metadataForDist name version >>= fun metadata ↦
      provider.addAllEdges extras edges metadata.requiresDist) cache).2 final) :
    ∃ more, result = edges ++ more ∧ provider.EdgesOf final
      (((provider.requiresDist cache name version).filter fun requirement ↦
        requirement.evaluateMarkers provider.markers extras).map .registry) more := by
  have hvalid' := (Steady.metadataForDist provider name version).valid cache hvalid
  obtain ⟨metadata, hmetadata, hrest⟩ := of_bind_ok h
  rw [hrest] at h hfinal
  rw [← provider.metadataForDist_requiresDist cache name version metadata hmetadata]
  exact provider.addAllEdges_spec extras _ hvalid' h hfinal

theorem Provider.dependencyEdges_spec (hvalid : provider.ValidCache cache) (package : PonPackage)
    (version : V) (h : (provider.dependencyEdges package version cache).1 = .ok result)
    (hfinal : Grows (provider.dependencyEdges package version cache).2 final) :
    ∃ more, result = ownEdges version package ++ more ∧
      provider.EdgesOf final (provider.demands cache package version) more := by
  cases package with
  | root => exact provider.addRootEdges_spec _ hvalid h hfinal
  | dist name | extra name _ =>
    dsimp only [Provider.dependencyEdges] at h hfinal
    cases hdeps : provider.noDeps with
    | true =>
      rw [hdeps] at h
      cases h
      exact ⟨[], rfl, by simp [Provider.demands, Provider.requirements, hdeps, Provider.EdgesOf]⟩
    | false =>
      rw [hdeps] at h hfinal
      obtain ⟨more, heq, hmore⟩ := provider.expand_spec hvalid name version _ h hfinal
      exact ⟨more, heq, by simpa [Provider.demands, Provider.requirements, hdeps] using hmore⟩

end Edges

/-! ## Pins and demands -/

section Pins

variable [LinearOrder V] [Versions V] {provider : Provider V}

/-- The pins that appear between two states of the tables come from the requirements. -/
def Provider.PinsFrom (provider : Provider V) (requirements : List (Requirement V))
    (cache later : Cache V) : Prop :=
  ∀ name candidate, cache.pinned name = none → later.pinned name = some candidate →
    ∃ requirement ∈ requirements, requirement.name = name ∧
      ∃ url, requirement.gitUrl = some url ∧ provider.checkout requirement url = .ok candidate

variable {cache : Cache V} {package : PonPackage} {version : V} {earlier calls : List (Call V)}

variable {later : Cache V}

omit [LinearOrder V] [Versions V] in
theorem Provider.PinsFrom.of_pinned {requirements : List (Requirement V)}
    (h : later.pinned = cache.pinned) : provider.PinsFrom requirements cache later := by
  intro name candidate hnone hsome
  rw [h, hnone] at hsome
  cases hsome

omit [LinearOrder V] [Versions V] in
theorem Provider.PinsFrom.trans {front back : List (Requirement V)} {a b c : Cache V}
    (h : provider.PinsFrom front a b) (h' : provider.PinsFrom back b c) (hgrows : Grows b c) :
    provider.PinsFrom (front ++ back) a c := by
  intro name candidate hnone hsome
  cases hmiddle : b.pinned name with
  | none =>
    obtain ⟨requirement, hin, hrest⟩ := h' name candidate hmiddle hsome
    exact ⟨requirement, List.mem_append_right _ hin, hrest⟩
  | some other =>
    have hkept := hgrows.pinned name other hmiddle
    rw [hsome] at hkept
    obtain rfl := Option.some.inj hkept
    obtain ⟨requirement, hin, hrest⟩ := h name candidate hnone hmiddle
    exact ⟨requirement, List.mem_append_left _ hin, hrest⟩

theorem Provider.addRequirementEdges_pins (cache : Cache V) (requirement : Requirement V)
    (extras : List ExtraName) (edges : List (Edge V)) :
    provider.PinsFrom
      ([requirement].filter fun requirement ↦ requirement.evaluateMarkers provider.markers extras)
      cache (provider.addRequirementEdges edges requirement extras cache).2 := by
  rw [List.filter_singleton]
  cases hmarker : requirement.evaluateMarkers provider.markers extras with
  | false =>
    rw [provider.addRequirementEdges_unmarked _ _ hmarker]
    exact .of_pinned rfl
  | true =>
    cases hgit : requirement.gitUrl with
    | none =>
      have hreads := @Reads.addRequirementEdges _ (· = requirement.name) _ _ provider _ hgit rfl
      exact .of_pinned ((hreads edges extras).pinned cache)
    | some url =>
      rw [provider.addRequirementEdges_git _ _ hmarker hgit, bind_apply, provider.ensurePinned_apply]
      cases hpinned : cache.pinned requirement.name with
      | some candidate => exact .of_pinned rfl
      | none =>
        cases hcheckout : provider.checkout requirement url with
        | error _ => exact .of_pinned rfl
        | ok pinned =>
          intro name candidate hnone hsome
          change (if name = requirement.name then some pinned else cache.pinned name) = some candidate
            at hsome
          by_cases hname : name = requirement.name
          · rw [if_pos hname] at hsome
            cases hsome
            exact ⟨requirement, List.mem_singleton.mpr rfl, hname.symm, url, hgit, hcheckout⟩
          · rw [if_neg hname, hnone] at hsome
            cases hsome

theorem Provider.addAllEdges_pins (extras : List ExtraName) (requirements : List (Requirement V))
    (cache : Cache V) (edges : List (Edge V)) :
    provider.PinsFrom
      (requirements.filter fun requirement ↦ requirement.evaluateMarkers provider.markers extras)
      cache (provider.addAllEdges extras edges requirements cache).2 := by
  induction requirements generalizing cache edges with
  | nil => exact .of_pinned rfl
  | cons requirement rest ih =>
    have hfirst := provider.addRequirementEdges_pins cache requirement extras edges
    rw [← List.singleton_append, List.filter_append]
    apply bind_tables (hfirst.trans (.of_pinned rfl) (.refl _))
    intro edges' _
    exact hfirst.trans (ih _ edges') ((Steady.addAllEdges provider extras rest edges').grows _)

theorem Provider.addRootEdges_pins (inputs : List (ResolvedInput V)) (cache : Cache V)
    (edges : List (Edge V)) :
    provider.PinsFrom (inputs.filterMap (ResolvedInput.requirement? provider.markers))
      cache (provider.addRootEdges edges inputs cache).2 := by
  induction inputs generalizing cache edges with
  | nil => exact .of_pinned rfl
  | cons input rest ih =>
    cases input with
    | pinned candidate => exact ih cache _
    | registry requirement =>
      have hfirst := provider.addRequirementEdges_pins cache requirement [] edges
      have hsplit : (ResolvedInput.registry requirement :: rest).filterMap
          (ResolvedInput.requirement? provider.markers) =
            ([requirement].filter fun requirement ↦ requirement.evaluateMarkers provider.markers []) ++
              rest.filterMap (ResolvedInput.requirement? provider.markers) := by
        rw [List.filter_singleton, List.filterMap_cons, ResolvedInput.requirement?]
        cases requirement.evaluateMarkers provider.markers [] <;> rfl
      rw [hsplit]
      apply bind_tables (hfirst.trans (.of_pinned rfl) (.refl _))
      intro edges' _
      exact hfirst.trans (ih _ edges') ((Steady.addRootEdges provider rest edges').grows _)

theorem Provider.expand_pins (cache : Cache V) (name : PackageName) (version : V)
    (edges : List (Edge V)) (extras : List ExtraName) :
    provider.PinsFrom ((provider.requiresDist cache name version).filter
      fun requirement ↦ requirement.evaluateMarkers provider.markers extras) cache
      ((provider.metadataForDist name version >>= fun metadata ↦
        provider.addAllEdges extras edges metadata.requiresDist) cache).2 := by
  have hreads := @Reads.metadataForDist _ (· = name) _ _ provider _ rfl version
  apply bind_tables (.of_pinned (hreads.pinned cache))
  intro metadata hmetadata other candidate hnone
  rw [← hreads.pinned cache] at hnone
  rw [← provider.metadataForDist_requiresDist cache name version metadata hmetadata]
  exact provider.addAllEdges_pins extras metadata.requiresDist _ edges other candidate hnone

/-- A question pins only what git requirements of the package that it expands ask for. -/
theorem Provider.answer_pins (call : Call V) {name : PackageName} {candidate : PinnedCandidate V}
    (hnone : cache.pinned name = none)
    (h : (provider.answer call cache).2.pinned name = some candidate) :
    ∃ package version, call = .getDependencies package version ∧
      ∃ requirement ∈ provider.requirements cache package version, requirement.name = name ∧
        ∃ url, requirement.gitUrl = some url ∧ provider.checkout requirement url = .ok candidate := by
  have hsame : ∀ {later : Cache V}, later.pinned = cache.pinned → later.pinned name ≠ some candidate := by
    intro later heq hsome
    rw [heq, hnone] at hsome
    cases hsome
  cases call with
  | prioritize package range conflictCount =>
    exact (hsame ((Reads.prioritize provider package range conflictCount).pinned cache) h).elim
  | chooseVersion package range =>
    exact (hsame ((Reads.chooseVersion provider package range).pinned cache) h).elim
  | getDependencies package version =>
    rw [provider.getDependencies_tables] at h
    refine ⟨package, version, rfl, ?_⟩
    cases package with
    | root => exact provider.addRootEdges_pins _ cache [] name candidate hnone h
    | dist own | extra own _ =>
      dsimp only [Provider.dependencyEdges] at h
      dsimp only [Provider.requirements]
      cases hdeps : provider.noDeps with
      | true =>
        rw [hdeps] at h
        exact (hsame rfl h).elim
      | false =>
        rw [hdeps] at h
        exact provider.expand_pins cache own version _ _ name candidate hnone h

/-- Tables that pin the same candidate of a version give a package the same demands. -/
theorem Provider.demands_congr (h : ∀ name, package.distName = some name →
      (later.pinned name).filter (fun candidate ↦ decide (candidate.version = version)) =
        (cache.pinned name).filter fun candidate ↦ decide (candidate.version = version)) :
    provider.demands later package version = provider.demands cache package version := by
  cases package with
  | root => rfl
  | dist name => simp only [Provider.demands, Provider.requirements, Provider.requiresDist, h name rfl]
  | extra name extra =>
    simp only [Provider.demands, Provider.requirements, Provider.requiresDist, h name rfl]

/-- A question that meets the condition does not change the demands of what has been expanded. -/
theorem Provider.Unread.demands {call : Call V} (h : provider.Unread cache earlier call)
    (hin : .getDependencies package version ∈ call :: earlier) :
    provider.demands (provider.answer call cache).2 package version =
      provider.demands cache package version := by
  apply provider.demands_congr
  intro name hname
  cases hbefore : cache.pinned name with
  | some candidate => rw [(provider.answer_grows call cache).pinned name candidate hbefore]
  | none =>
    cases hafter : (provider.answer call cache).2.pinned name with
    | none => rfl
    | some candidate =>
      obtain ⟨expanded, _, rfl, requirement, hrequirement, rfl, url, hgit, hcheckout⟩ :=
        provider.answer_pins call hbefore hafter
      have hunread := h requirement hrequirement hbefore url candidate hgit hcheckout package hname
      have hversion : candidate.version ≠ version := by
        rintro rfl
        exact hunread hin
      simp [hversion]

theorem Provider.AsksUnread.demands_after (h : provider.AsksUnread cache earlier calls)
    (hin : .getDependencies package version ∈ earlier) :
    provider.demands (provider.after cache calls) package version =
      provider.demands cache package version := by
  induction calls generalizing cache earlier with
  | nil => rfl
  | cons call rest ih =>
    have hin' := List.mem_cons_of_mem call hin
    exact (ih h.2 hin').trans (h.1.demands hin')

/-- The demands of a package at the end are those at the time when it was expanded. -/
theorem Provider.AsksUnread.demands (h : provider.AsksUnread cache earlier calls) {i : ℕ}
    (hi : calls[i]? = some (.getDependencies package version)) :
    provider.demands (provider.after cache calls) package version =
      provider.demands (provider.after cache (calls.take i)) package version := by
  induction calls generalizing cache earlier i with
  | nil => simp at hi
  | cons call rest ih =>
    cases i with
    | zero =>
      obtain rfl : call = .getDependencies package version := by simpa using hi
      have hrest := h.2.demands_after List.mem_cons_self
      exact hrest.trans (h.1.demands List.mem_cons_self)
    | succ i => exact ih h.2 hi

/-! ## The result -/

/-- What is known about a selected package: its demands, in the order of its edges, and that all of
its edges are met. -/
theorem Provider.Solves.expanded {selected : List (PonPackage × V)}
    (h : provider.Solves calls selected) (hunread : provider.AsksUnread provider.initial [] calls)
    (hin : (package, version) ∈ selected) :
    ∃ edges, provider.EdgesOf (provider.after provider.initial calls)
        (provider.demands (provider.after provider.initial calls) package version) edges ∧
      ∀ other range, (other, range) ∈ ownEdges version package ++ edges →
        ∃ chosen, (other, chosen) ∈ selected ∧ range chosen = true := by
  obtain ⟨i, edges, hi, hanswer, hmet⟩ := h.satisfied package version hin
  have hvalid := provider.after_valid (calls.take i) provider.initial_valid
  have hgrows := provider.after_grows (calls.drop (i + 1))
    (provider.answer (.getDependencies package version)
      (provider.after provider.initial (calls.take i))).2
  rw [← provider.after_split calls provider.initial hi, provider.getDependencies_tables] at hgrows
  rw [provider.answers_getElem? calls _ i _ hi] at hanswer
  have hdependencies : Dependencies.ofResult (provider.dependencyEdges package version
      (provider.after provider.initial (calls.take i))).1 = .ok (.available edges) :=
    Answer.dependencies.inj (Option.some.inj hanswer)
  have hedges : (provider.dependencyEdges package version
      (provider.after provider.initial (calls.take i))).1 = .ok edges := by
    rcases hrun : (provider.dependencyEdges package version
      (provider.after provider.initial (calls.take i))).1 with error | found
    · rw [hrun] at hdependencies
      cases error <;> cases hdependencies
    · rw [hrun] at hdependencies
      cases hdependencies
      rfl
  obtain ⟨more, rfl, hmore⟩ := provider.dependencyEdges_spec hvalid package version hedges hgrows
  rw [← hunread.demands hi] at hmore
  exact ⟨more, hmore, hmet⟩

/-- A resolution is sound if no git requirement pins a distribution at a version that has been
expanded. -/
theorem Provider.resolveRoot_sound (provider : Provider V) (calls : List (Call V))
    (selected : List (PonPackage × V)) (resolution : Resolution V)
    (hsolves : provider.Solves calls selected)
    (hunread : provider.AsksUnread provider.initial [] calls)
    (hresolved : (provider.resolveRoot selected (provider.after provider.initial calls)).1 =
      .ok resolution) :
    provider.Sound (provider.after provider.initial calls) selected resolution := by
  obtain ⟨hdists, hversions⟩ := provider.resolveRoot_dists hsolves.unique hresolved
  refine ⟨?_, ?_, hdists, hversions⟩
  · intro package version hin demand hdemand
    obtain ⟨edges, hedges, hmet⟩ := hsolves.expanded hunread hin
    obtain ⟨range, hedge, hadmits, hextras⟩ := hedges.edge hdemand
    obtain ⟨chosen, hchosen, hrange⟩ := hmet _ _ (List.mem_append_right _ hedge)
    have hadmitted := hadmits chosen hrange
    refine ⟨chosen, hchosen, hadmitted.satisfiedBy, hadmitted.constraints, fun extra hextra ↦ ?_⟩
    obtain ⟨version, hselected, _⟩ := hmet _ _ (List.mem_append_right _ (hextras extra hextra))
    exact ⟨version, hselected⟩
  · intro name extra version hin
    obtain ⟨edges, _, hmet⟩ := hsolves.expanded hunread hin
    obtain ⟨chosen, hchosen, hrange⟩ := hmet (.dist name) (.singleton version) List.mem_cons_self
    have hversion : chosen = version := of_decide_eq_true hrange
    exact hversion ▸ hchosen

end Pins

/-! ## A git requirement on a distribution of the index -/

def nameC : PackageName := ⟨['c'], by decide⟩

/-- The roots ask for `a >= 1`, `a < 2` and `b`, and the index has versions 1 and 2 of everything. The
metadata of `b` requires `a` from a git URL that holds version 1; it requires `c` there, while the
version 1 in the index requires nothing. -/
def checkoutProvider : Provider ℕ where
  source := listedSource (fun _ ↦ [1, 2]) fun name _ ↦
    if name = nameB then [plainRequirement nameA (some (.url ['g', 'i', 't', '+', 'u']))] else []
  markers := { pythonVersion := 3, value := fun _ ↦ [] }
  allowPrerelease := false
  rootReqs := [.registry (plainRequirement nameA (some (.versionSpecifier [⟨.greaterThanEqual, 1⟩]))),
    .registry (plainRequirement nameA (some (.versionSpecifier [⟨.lessThan, 2⟩]))),
    .registry (plainRequirement nameB none)]
  constraints _ := []
  noDeps := false
  pinGitUrl url := .ok
    { name := nameA, version := 1, kind := .pure, dependencies := [plainRequirement nameC none]
      artifact := .vcs url none [] [] }
  pythonMessage _ _ _ := []

theorem checkoutProvider_root (selected : List (PonPackage × ℕ)) (hA : (.dist nameA, 1) ∈ selected)
    (hB : (.dist nameB, 2) ∈ selected) : ∃ edges,
    (checkoutProvider.answer (.getDependencies .root 0) checkoutProvider.initial).1 =
        .dependencies (.ok (.available edges)) ∧
      ∀ other range, (other, range) ∈ edges →
        ∃ chosen, (other, chosen) ∈ selected ∧ range chosen = true := by
  refine ⟨_, rfl, fun other range hedge ↦ ?_⟩
  rcases List.mem_cons.mp hedge with heq | hedge
  · cases heq
    exact ⟨1, hA, by decide⟩
  rcases List.mem_cons.mp hedge with heq | hedge
  · cases heq
    exact ⟨1, hA, by decide⟩
  cases List.mem_singleton.mp hedge
  exact ⟨2, hB, by decide⟩

/-- `b` is expanded before `a`. -/
def checkoutFirst : List (Call ℕ) :=
  [.getDependencies .root 0, .getDependencies (.dist nameB) 2, .getDependencies (.dist nameA) 1,
    .getDependencies (.dist nameC) 2]

theorem checkoutFirst_solves : checkoutProvider.Solves checkoutFirst
    [(.root, 0), (.dist nameB, 2), (.dist nameA, 1), (.dist nameC, 2)] := by
  refine ⟨List.mem_cons_self, by decide, fun package version hin ↦ ?_⟩
  simp only [List.mem_cons, List.not_mem_nil, or_false, Prod.mk.injEq] at hin
  rcases hin with ⟨rfl, rfl⟩ | ⟨rfl, rfl⟩ | ⟨rfl, rfl⟩ | ⟨rfl, rfl⟩
  · obtain ⟨edges, hedges, hmet⟩ := checkoutProvider_root
      [(.root, 0), (.dist nameB, 2), (.dist nameA, 1), (.dist nameC, 2)] (by simp) (by simp)
    exact ⟨0, edges, rfl, congrArg some hedges, hmet⟩
  · refine ⟨1, _, rfl, rfl, fun other range hedge ↦ ?_⟩
    cases List.mem_singleton.mp hedge
    exact ⟨1, by simp [plainRequirement], by decide⟩
  · refine ⟨2, _, rfl, rfl, fun other range hedge ↦ ?_⟩
    cases List.mem_singleton.mp hedge
    exact ⟨2, by simp [plainRequirement], by decide⟩
  · exact ⟨3, _, rfl, rfl, fun other range hedge ↦ by cases hedge⟩

/-- The git requirement pins `a` before it is expanded, and `c` is selected. -/
theorem resolveRoot_sound_checkout :
    ∃ resolution, checkoutProvider.Sound
      (checkoutProvider.after checkoutProvider.initial checkoutFirst)
      [(.root, 0), (.dist nameB, 2), (.dist nameA, 1), (.dist nameC, 2)] resolution := by
  refine ⟨_, checkoutProvider.resolveRoot_sound checkoutFirst _ _ checkoutFirst_solves
    ⟨?_, ?_, ?_, ?_, trivial⟩ rfl⟩
  · intro requirement hrequirement _ url _ hgit
    have hplain : requirement.gitUrl = none := by
      rcases List.mem_cons.mp hrequirement with rfl | hrest
      · rfl
      rcases List.mem_cons.mp hrest with rfl | hrest
      · rfl
      cases List.mem_singleton.mp hrest
      rfl
    rw [hplain] at hgit
    cases hgit
  · intro requirement hrequirement _ url candidate _ hcheckout other hother hin
    obtain rfl := List.mem_singleton.mp hrequirement
    have hne : nameB ≠ nameA := by decide
    rcases List.mem_cons.mp hin with heq | hrest
    · obtain ⟨rfl, _⟩ := Call.getDependencies.inj heq
      exact hne (Option.some.inj hother)
    · obtain ⟨rfl, _⟩ := Call.getDependencies.inj (List.mem_singleton.mp hrest)
      cases hother
  · intro requirement hrequirement _ url _ hgit
    cases List.mem_singleton.mp hrequirement
    cases hgit
  · intro requirement hrequirement
    cases hrequirement

/-- `a` is expanded with the metadata of the index and pinned afterwards; nobody selects `c`. -/
theorem pin_after_expansion_drops_demand :
    ¬ ∀ (provider : Provider ℕ) (calls : List (Call ℕ)) (selected : List (PonPackage × ℕ))
      (resolution : Resolution ℕ), provider.Solves calls selected →
      (provider.resolveRoot selected (provider.after provider.initial calls)).1 = .ok resolution →
      provider.Sound (provider.after provider.initial calls) selected resolution := by
  intro hsound
  have h := hsound checkoutProvider
    [.getDependencies .root 0, .getDependencies (.dist nameA) 1, .getDependencies (.dist nameB) 2]
    [(.root, 0), (.dist nameA, 1), (.dist nameB, 2)] _ ?_ rfl
  · obtain ⟨chosen, hchosen, _⟩ := h.demands (.dist nameA) 1 (by simp)
      (.registry (plainRequirement nameC none)) List.mem_cons_self
    have hne : nameC ≠ nameA ∧ nameC ≠ nameB := by decide
    simp [plainRequirement, ResolvedInput.name, hne] at hchosen
  · refine ⟨List.mem_cons_self, by decide, fun package version hin ↦ ?_⟩
    simp only [List.mem_cons, List.not_mem_nil, or_false, Prod.mk.injEq] at hin
    rcases hin with ⟨rfl, rfl⟩ | ⟨rfl, rfl⟩ | ⟨rfl, rfl⟩
    · obtain ⟨edges, hedges, hmet⟩ := checkoutProvider_root
        [(.root, 0), (.dist nameA, 1), (.dist nameB, 2)] (by simp) (by simp)
      exact ⟨0, edges, rfl, congrArg some hedges, hmet⟩
    · exact ⟨1, _, rfl, rfl, fun other range hedge ↦ by cases hedge⟩
    · refine ⟨2, _, rfl, rfl, fun other range hedge ↦ ?_⟩
      cases List.mem_singleton.mp hedge
      exact ⟨1, by simp [plainRequirement], by decide⟩

end Pon.Resolve
