import Pon.Resolve.Provider

/-!
# Stability of the provider

The solver keeps what it has derived from earlier answers, so a question asked again must get the same
answer. An operation is steady if it gives the same result in every later state in which no name that
it looked up in vain has been pinned since. All operations are steady. A name is pinned in the middle
of solving, when the metadata of a package has a git requirement; the provider is stable as long as
such a name has not been looked up before.
-/

namespace Pon.Resolve

open Package

variable {V : Type}

/-! ## Later states -/

/-- Pins stay, and so does the record of the names looked up in vain. -/
structure Grows (cache later : Cache V) : Prop where
  pinned : ∀ name candidate, cache.pinned name = some candidate → later.pinned name = some candidate
  missed : ∀ name ∈ cache.missed, name ∈ later.missed

/-- Pins stay, and no name that was looked up in vain has been pinned. -/
structure Later (cache later : Cache V) : Prop where
  pinned : ∀ name candidate, cache.pinned name = some candidate → later.pinned name = some candidate
  missed : ∀ name ∈ cache.missed, later.pinned name = none

/-- The version lists are those of the source, and a candidate is pinned under its own name. -/
structure Provider.ValidCache (provider : Provider V) (cache : Cache V) : Prop where
  listed : ∀ key versions, cache.versions key = some versions →
    provider.source.availableVersions key.1 key.2 = .ok versions
  named : ∀ name candidate, cache.pinned name = some candidate → candidate.name = name

/-- No name that was looked up in vain is pinned. -/
def Cache.Consistent (cache : Cache V) : Prop :=
  ∀ name ∈ cache.missed, cache.pinned name = none

theorem Grows.refl (cache : Cache V) : Grows cache cache :=
  ⟨fun _ _ h ↦ h, fun _ h ↦ h⟩

theorem Grows.trans {a b c : Cache V} (h : Grows a b) (h' : Grows b c) : Grows a c :=
  ⟨fun name candidate hpinned ↦ h'.pinned name candidate (h.pinned name candidate hpinned),
    fun name hmissed ↦ h'.missed name (h.missed name hmissed)⟩

theorem Later.of_grows {a b c : Cache V} (h : Grows a b) (h' : Later b c) : Later a c :=
  ⟨fun name candidate hpinned ↦ h'.pinned name candidate (h.pinned name candidate hpinned),
    fun name hmissed ↦ h'.missed name (h.missed name hmissed)⟩

theorem Grows.later {a b : Cache V} (h : Grows a b) (hb : b.Consistent) : Later a b :=
  ⟨h.pinned, fun name hmissed ↦ hb name (h.missed name hmissed)⟩

/-! ## Steady operations -/

/-- The operation only adds to the tables, and repeats its result in later states. -/
structure Provider.Steady {α : Type} (provider : Provider V) (m : ProviderM V α) : Prop where
  grows : ∀ cache, Grows cache (m cache).2
  valid : ∀ cache, provider.ValidCache cache → provider.ValidCache (m cache).2
  again : ∀ cache later, provider.ValidCache cache → provider.ValidCache later →
    Later (m cache).2 later → (m later).1 = (m cache).1 ∧ (m later).2.pinned = later.pinned

section Steady

variable {α β : Type} {provider : Provider V}

theorem Provider.Steady.result (result : Except Error α) :
    provider.Steady (fun cache ↦ (result, cache)) where
  grows cache := .refl cache
  valid _ h := h
  again _ _ _ _ _ := ⟨rfl, rfl⟩

/-- What a bind does, by the outcome of its first part. -/
theorem bind_apply (m : ProviderM V α) (f : α → ProviderM V β) (cache : Cache V) :
    (m >>= f) cache =
      match m cache with
      | (.ok a, cache) => f a cache
      | (.error error, cache) => (.error error, cache) := by
  change (ExceptT.bind m f) cache = _
  unfold ExceptT.bind ExceptT.mk
  change (StateT.bind m (ExceptT.bindCont f)) cache = _
  unfold StateT.bind
  rcases h : m cache with ⟨result, cache'⟩
  cases result <;> simp only [ExceptT.bindCont] <;> rfl

variable {f : α → ProviderM V β} {m : ProviderM V α}

/-- A bind that succeeds has gone through its first part. -/
theorem of_bind_ok {cache : Cache V} {b : β}
    (h : ((m >>= f) cache).1 = .ok b) :
    ∃ a, (m cache).1 = .ok a ∧ (m >>= f) cache = f a (m cache).2 := by
  rw [bind_apply] at h ⊢
  rcases hm : m cache with ⟨result, cache'⟩
  rw [hm] at h
  cases result with
  | ok a => exact ⟨a, rfl, rfl⟩
  | error _ => cases h

theorem bind_tables {cache : Cache V} {p : Cache V → Prop}
    (first : p (m cache).2) (next : ∀ a, (m cache).1 = .ok a → p (f a (m cache).2).2) :
    p ((m >>= f) cache).2 := by
  rw [bind_apply]
  rcases h : m cache with ⟨result, cache'⟩
  rw [h] at first next
  cases result with
  | ok a => exact next a rfl
  | error _ => exact first

theorem Provider.Steady.bind (hm : provider.Steady m)
    (hf : ∀ a, provider.Steady (f a)) : provider.Steady (m >>= f) where
  grows cache := bind_tables (hm.grows cache) fun a _ ↦ (hm.grows cache).trans ((hf a).grows _)
  valid cache hvalid := bind_tables (hm.valid cache hvalid) fun a _ ↦ (hf a).valid _ (hm.valid cache hvalid)
  again cache later hvalid hvalidLater hlater := by
    have hvalid' := hm.valid cache hvalid
    have hvalidLater' := hm.valid later hvalidLater
    have hagain := hm.again cache later hvalid hvalidLater
    rw [bind_apply] at hlater
    rw [bind_apply, bind_apply]
    rcases h : m cache with ⟨result, cache'⟩
    rcases h' : m later with ⟨result', later'⟩
    rw [h] at hvalid' hagain hlater
    rw [h'] at hvalidLater' hagain
    cases result with
    | ok a =>
      obtain ⟨rfl, hpinned⟩ := hagain (Later.of_grows ((hf a).grows cache') hlater)
      have hlater' : Later (f a cache').2 later' :=
        ⟨fun name candidate hsome ↦ by rw [hpinned]; exact hlater.pinned name candidate hsome,
          fun name hmissed ↦ by rw [hpinned]; exact hlater.missed name hmissed⟩
      obtain ⟨hsame, hpinned'⟩ := (hf a).again cache' later' hvalid' hvalidLater' hlater'
      exact ⟨hsame, hpinned'.trans hpinned⟩
    | error error =>
      obtain ⟨rfl, hpinned⟩ := hagain hlater
      exact ⟨rfl, hpinned⟩

theorem Provider.Steady.pinnedCandidate (name : PackageName) :
    provider.Steady (pinnedCandidate name) where
  grows cache := by
    unfold Resolve.pinnedCandidate
    cases cache.pinned name with
    | some _ => exact .refl cache
    | none => exact ⟨fun _ _ h ↦ h, fun _ h ↦ List.mem_cons_of_mem _ h⟩
  valid cache hvalid := by
    unfold Resolve.pinnedCandidate
    cases cache.pinned name <;> exact ⟨hvalid.listed, hvalid.named⟩
  again cache later _ _ hlater := by
    unfold Resolve.pinnedCandidate at hlater ⊢
    cases hpinned : cache.pinned name with
    | some candidate =>
      rw [hpinned] at hlater
      rw [hlater.pinned name candidate hpinned]
      exact ⟨rfl, rfl⟩
    | none =>
      rw [hpinned] at hlater
      rw [hlater.missed name List.mem_cons_self]
      exact ⟨rfl, rfl⟩

theorem Provider.checkout_name {requirement : Requirement V} {url : Text}
    {candidate : PinnedCandidate V} (h : provider.checkout requirement url = .ok candidate) :
    candidate.name = requirement.name := by
  unfold Provider.checkout at h
  cases hpin : provider.pinGitUrl url with
  | error error =>
    rw [hpin] at h
    cases h
  | ok pinned =>
    rw [hpin] at h
    by_cases hname : pinned.name = requirement.name
    · have hvalid : validatePinnedRequirementName pinned requirement = .ok () := if_pos hname
      simp only [bind, Except.bind, hvalid, Except.pure, Pure.pure] at h
      cases h
      exact hname
    · have hinvalid : ∃ error, validatePinnedRequirementName pinned requirement = .error error :=
        ⟨_, if_neg hname⟩
      obtain ⟨error, herror⟩ := hinvalid
      simp only [bind, Except.bind, herror] at h
      cases h

variable (requirement : Requirement V)

theorem Provider.ensurePinned_apply (url : Text) (cache : Cache V) :
    provider.ensurePinnedGitRequirement requirement url cache =
      match cache.pinned requirement.name with
      | some candidate => (.ok candidate, cache)
      | none =>
          match provider.checkout requirement url with
          | .ok candidate =>
              (.ok candidate,
                { cache with
                  pinned := fun name ↦
                    if name = requirement.name then some candidate else cache.pinned name })
          | .error error => (.error error, { cache with missed := requirement.name :: cache.missed }) := by
  unfold Provider.ensurePinnedGitRequirement
  cases cache.pinned requirement.name with
  | some candidate => rfl
  | none =>
    cases hcheckout : provider.checkout requirement url with
    | ok candidate => simp only [provider.checkout_name hcheckout]
    | error error => rfl

theorem Provider.Steady.ensurePinned (url : Text) :
    provider.Steady (provider.ensurePinnedGitRequirement requirement url) where
  grows cache := by
    rw [provider.ensurePinned_apply]
    cases hpinned : cache.pinned requirement.name with
    | some _ => exact .refl cache
    | none =>
      cases provider.checkout requirement url with
      | ok candidate =>
        refine ⟨fun name other hother ↦ ?_, fun _ h ↦ h⟩
        have hne : name ≠ requirement.name := by
          rintro rfl
          rw [hpinned] at hother
          cases hother
        exact (if_neg hne).trans hother
      | error _ => exact ⟨fun _ _ h ↦ h, fun _ h ↦ List.mem_cons_of_mem _ h⟩
  valid cache hvalid := by
    rw [provider.ensurePinned_apply]
    cases cache.pinned requirement.name with
    | some _ => exact hvalid
    | none =>
      cases hcheckout : provider.checkout requirement url with
      | ok candidate =>
        refine ⟨hvalid.listed, fun name other hother ↦ ?_⟩
        by_cases hname : name = requirement.name
        · simp only [hname, if_true, Option.some.injEq] at hother
          rw [← hother, hname, provider.checkout_name hcheckout]
        · simp only [hname, if_false] at hother
          exact hvalid.named name other hother
      | error _ => exact ⟨hvalid.listed, hvalid.named⟩
  again cache later _ _ hlater := by
    rw [provider.ensurePinned_apply] at hlater
    rw [provider.ensurePinned_apply, provider.ensurePinned_apply]
    cases hpinned : cache.pinned requirement.name with
    | some candidate =>
      rw [hpinned] at hlater
      rw [hlater.pinned _ candidate hpinned]
      exact ⟨rfl, rfl⟩
    | none =>
      rw [hpinned] at hlater
      cases hcheckout : provider.checkout requirement url with
      | ok candidate =>
        rw [hcheckout] at hlater
        rw [hlater.pinned requirement.name candidate (if_pos rfl)]
        exact ⟨rfl, rfl⟩
      | error error =>
        rw [hcheckout] at hlater
        rw [hlater.missed _ List.mem_cons_self]
        exact ⟨rfl, rfl⟩

end Steady

/-! ## The operations of the provider -/

variable {provider : Provider V} {rest : List (Requirement V)} {cache : Cache V}

theorem Provider.listedVersions_result (hvalid : provider.ValidCache cache)
    (key : PackageName × Bool) :
    (provider.listedVersions key cache).1 = provider.source.availableVersions key.1 key.2 := by
  unfold Provider.listedVersions
  cases hversions : cache.versions key with
  | some versions => exact (hvalid.listed key versions hversions).symm
  | none => cases h : provider.source.availableVersions key.1 key.2 <;> rfl

theorem Provider.Steady.listedVersions (provider : Provider V) (key : PackageName × Bool) :
    provider.Steady (provider.listedVersions key) where
  grows cache := by
    unfold Provider.listedVersions
    cases cache.versions key with
    | some _ => exact .refl cache
    | none => cases provider.source.availableVersions key.1 key.2 <;> exact ⟨fun _ _ h ↦ h, fun _ h ↦ h⟩
  valid cache hvalid := by
    unfold Provider.listedVersions
    cases cache.versions key with
    | some _ => exact hvalid
    | none =>
      cases hversions : provider.source.availableVersions key.1 key.2 with
      | error _ => exact hvalid
      | ok versions =>
        refine ⟨fun other listed hlisted ↦ ?_, hvalid.named⟩
        by_cases hother : other = key
        · simp only [hother, if_true, Option.some.injEq] at hlisted
          rw [hother, hversions, hlisted]
        · simp only [hother, if_false] at hlisted
          exact hvalid.listed other listed hlisted
  again cache later hvalid hvalidLater _ := by
    refine ⟨?_, ?_⟩
    · rw [listedVersions_result hvalid, listedVersions_result hvalidLater]
    · unfold Provider.listedVersions
      cases later.versions key with
      | some _ => rfl
      | none => cases provider.source.availableVersions key.1 key.2 <;> rfl

theorem Provider.Steady.mapResult {α β : Type} {m : ProviderM V α} (h : provider.Steady m)
    (f : Except Error α → Except Error β) :
    provider.Steady (fun cache ↦ (f (m cache).1, (m cache).2)) := by
  refine { h with again := fun cache later hvalid hvalidLater hlater ↦ ?_ }
  obtain ⟨hsame, hpinned⟩ := h.again cache later hvalid hvalidLater hlater
  exact ⟨congrArg f hsame, hpinned⟩

/-- A property that an operation gets from its parts. -/
structure Composed (provider : Provider V) (P : (α : Type) → ProviderM V α → Prop) : Prop where
  result : ∀ {α : Type} (result : Except Error α), P α fun cache ↦ (result, cache)
  bind : ∀ {α β : Type} {m : ProviderM V α} {f : α → ProviderM V β}, P α m → (∀ a, P β (f a)) →
    P β (m >>= f)
  mapResult : ∀ {α β : Type} {m : ProviderM V α}, P α m → ∀ f : Except Error α → Except Error β,
    P β fun cache ↦ (f (m cache).1, (m cache).2)
  listedVersions : ∀ key, P _ (provider.listedVersions key)

theorem Provider.steady (provider : Provider V) : Composed provider fun _ m ↦ provider.Steady m where
  result := .result
  bind := .bind
  mapResult := .mapResult
  listedVersions := .listedVersions provider

namespace Composed

variable {P : (α : Type) → ProviderM V α → Prop} {name : PackageName} {requirement : Requirement V}

section

variable (h : Composed provider P)
include h

theorem pure {α : Type} (a : α) : P α (Pure.pure a) :=
  h.result (.ok a)

theorem throw {α : Type} (error : Error) :
    P α (MonadExcept.throw error : ProviderM V α) :=
  h.result (.error error)

theorem versionsForName (lookup : P _ (pinnedCandidate name)) :
    P _ (provider.versionsForName name) := by
  apply h.bind lookup
  intro found
  cases found with
  | some candidate => exact h.pure _
  | none => exact h.listedVersions _

theorem firstInstallable (lookup : P _ (pinnedCandidate name))
    (range : Ranges V) (versions : List V) : P _ (provider.firstInstallable name range versions) := by
  induction versions with
  | nil => exact h.pure _
  | cons version rest ih =>
    unfold Provider.firstInstallable
    split
    · exact ih
    · apply h.bind lookup
      intro found
      split
      · exact h.pure _
      · apply h.bind (h.result _)
        intro artifacts
        split
        · exact h.pure _
        · exact ih

theorem versionsForPackage [Versions V]
    (lookup : ∀ name, P _ (pinnedCandidate name)) (package : PonPackage) :
    P _ (provider.versionsForPackage package) := by
  cases package with
  | root => exact h.pure _
  | dist name | extra name _ => exact h.versionsForName (lookup name)

theorem prioritize [Versions V] (lookup : ∀ name, P _ (pinnedCandidate name))
    (package : PonPackage) (range : Ranges V) (conflictCount : ℕ) :
    P _ (provider.prioritize package range conflictCount) :=
  h.mapResult (h.versionsForPackage lookup package) fun versions ↦
    .ok (if versionCount range versions = 0 then (u32Max, 0)
      else (conflictCount, versionCount range versions))

end

variable [LinearOrder V] [Versions V]

variable (h : Composed provider P)
include h

theorem rangeForRequirement (pin : ∀ url, requirement.gitUrl = some url →
      P _ (provider.ensurePinnedGitRequirement requirement url)) (candidates : List V) :
    P _ (provider.rangeForRequirement requirement candidates) := by
  unfold Provider.rangeForRequirement
  split
  · exact h.pure _
  · next url isUrl =>
    split
    · next git => exact h.bind (pin url (by simp [Requirement.gitUrl, isUrl, git])) fun _ ↦ h.pure _
    · exact h.throw _
  · exact h.pure _

theorem addRequirementEdges (lookup : P _ (pinnedCandidate requirement.name))
    (pin : ∀ url, requirement.gitUrl = some url →
      P _ (provider.ensurePinnedGitRequirement requirement url)) (edges : List (Edge V))
    (extras : List ExtraName) : P _ (provider.addRequirementEdges edges requirement extras) := by
  unfold Provider.addRequirementEdges
  split
  · exact h.pure _
  · split
    · next url git => exact h.bind (pin url git) fun _ ↦ h.pure _
    · apply h.bind (h.versionsForName lookup)
      intro candidates
      exact h.bind (h.rangeForRequirement pin candidates) fun _ ↦ h.pure _

theorem metadataForDist (lookup : P _ (pinnedCandidate name)) (version : V) :
    P _ (provider.metadataForDist name version) := by
  apply h.bind lookup
  intro found
  split
  · exact h.pure _
  · apply h.bind (h.result _)
    intro metadata
    split
    · split
      · exact h.throw _
      · exact h.pure _
    · exact h.pure _

theorem chooseVersion (lookup : ∀ name, P _ (pinnedCandidate name))
    (package : PonPackage) (range : Ranges V) : P _ (provider.chooseVersion package range) := by
  unfold Provider.chooseVersion
  split
  · exact h.pure _
  · exact h.bind (h.versionsForPackage lookup package) fun _ ↦ h.firstInstallable (lookup _) range _

end Composed

section Operations

variable [LinearOrder V] [Versions V] (provider : Provider V)

theorem Provider.Steady.addRequirementEdges (edges : List (Edge V)) (requirement : Requirement V)
    (extras : List ExtraName) :
    provider.Steady (provider.addRequirementEdges edges requirement extras) :=
  provider.steady.addRequirementEdges (.pinnedCandidate _) (fun _ _ ↦ .ensurePinned _ _) edges extras

theorem Provider.Steady.addAllEdges (extras : List ExtraName) (requirements : List (Requirement V)) :
    ∀ edges, provider.Steady (provider.addAllEdges extras edges requirements) := by
  induction requirements with
  | nil => exact fun edges ↦ provider.steady.pure edges
  | cons requirement rest ih =>
    exact fun edges ↦ (Steady.addRequirementEdges provider edges requirement extras).bind ih

theorem Provider.Steady.addRootEdges (inputs : List (ResolvedInput V)) :
    ∀ edges, provider.Steady (provider.addRootEdges edges inputs) := by
  induction inputs with
  | nil => exact fun edges ↦ provider.steady.pure edges
  | cons input rest ih =>
    intro edges
    cases input with
    | registry requirement => exact (Steady.addRequirementEdges provider edges requirement []).bind ih
    | pinned candidate => exact ih _

theorem Provider.Steady.metadataForDist (name : PackageName) (version : V) :
    provider.Steady (provider.metadataForDist name version) :=
  provider.steady.metadataForDist (.pinnedCandidate name) version

theorem Provider.Steady.dependencyEdges (package : PonPackage) (version : V) :
    provider.Steady (provider.dependencyEdges package version) := by
  cases package with
  | root => exact .addRootEdges provider _ _
  | dist name | extra name extra =>
    dsimp only [Provider.dependencyEdges]
    split
    · exact provider.steady.pure _
    · exact (Steady.metadataForDist provider name version).bind fun _ ↦ .addAllEdges provider _ _ _

variable (call : Call V)

/-- A question is a steady operation whose result is wrapped. -/
theorem Provider.answer_steady :
    ∃ (α : Type) (m : ProviderM V α) (wrap : Except Error α → Answer V), provider.Steady m ∧
      ∀ cache, provider.answer call cache = (wrap (m cache).1, (m cache).2) := by
  have steady := provider.steady
  cases call with
  | prioritize package range conflictCount =>
    have h := steady.prioritize .pinnedCandidate package range conflictCount
    exact ⟨_, _, .priority, h, fun _ ↦ rfl⟩
  | chooseVersion package range =>
    have h := steady.chooseVersion .pinnedCandidate package range
    exact ⟨_, _, .version, h, fun _ ↦ rfl⟩
  | getDependencies package version =>
    have h := Steady.dependencyEdges provider package version
    exact ⟨_, _, .dependencies, h.mapResult Dependencies.ofResult, fun _ ↦ rfl⟩

theorem Provider.answer_again (cache later : Cache V)
    (hvalid : provider.ValidCache cache) (hvalidLater : provider.ValidCache later)
    (hlater : Later (provider.answer call cache).2 later) :
    (provider.answer call later).1 = (provider.answer call cache).1 := by
  obtain ⟨_, m, wrap, steady, answers⟩ := provider.answer_steady call
  rw [answers] at hlater
  rw [answers, answers, (steady.again cache later hvalid hvalidLater hlater).1]

theorem Provider.answer_grows (cache : Cache V) :
    Grows cache (provider.answer call cache).2 := by
  obtain ⟨_, m, wrap, steady, answers⟩ := provider.answer_steady call
  rw [answers]
  exact steady.grows cache

theorem Provider.answer_valid (h : provider.ValidCache cache) :
    provider.ValidCache (provider.answer call cache).2 := by
  obtain ⟨_, m, wrap, steady, answers⟩ := provider.answer_steady call
  rw [answers]
  exact steady.valid cache h

end Operations

/-! ## Operations that pin nothing -/

/-- The operation pins nothing, and of the names looked up in vain it adds only some to the record. -/
structure Reads {α : Type} (looked : PackageName → Prop) (m : ProviderM V α) : Prop where
  pinned : ∀ cache, (m cache).2.pinned = cache.pinned
  missed : ∀ cache, ∀ name ∈ (m cache).2.missed,
    name ∈ cache.missed ∨ cache.pinned name = none ∧ looked name

section Reads

variable {α β : Type} {looked : PackageName → Prop}

theorem Reads.result (result : Except Error α) : Reads looked (fun cache : Cache V ↦ (result, cache)) :=
  ⟨fun _ ↦ rfl, fun _ _ h ↦ Or.inl h⟩

variable {m : ProviderM V α}

theorem Reads.bind {f : α → ProviderM V β} (hm : Reads looked m) (hf : ∀ a, Reads looked (f a)) :
    Reads looked (m >>= f) where
  pinned cache := bind_tables (p := (·.pinned = cache.pinned)) (hm.pinned cache) fun a _ ↦
    ((hf a).pinned _).trans (hm.pinned cache)
  missed cache := by
    apply bind_tables (p := fun later ↦ ∀ name ∈ later.missed,
      name ∈ cache.missed ∨ cache.pinned name = none ∧ looked name) (hm.missed cache)
    intro a _ name hname
    rcases (hf a).missed _ name hname with hold | ⟨hnone, hlooked⟩
    · exact hm.missed cache name hold
    · exact Or.inr ⟨hm.pinned cache ▸ hnone, hlooked⟩

theorem Reads.pinnedCandidate {name : PackageName} (hname : looked name) :
    Reads looked (pinnedCandidate name : ProviderM V _) where
  pinned cache := by
    unfold Resolve.pinnedCandidate
    cases cache.pinned name <;> rfl
  missed cache other hother := by
    unfold Resolve.pinnedCandidate at hother
    cases hpinned : cache.pinned name with
    | some _ =>
      rw [hpinned] at hother
      exact Or.inl hother
    | none =>
      rw [hpinned] at hother
      rcases List.mem_cons.mp hother with rfl | hold
      · exact Or.inr ⟨hpinned, hname⟩
      · exact Or.inl hold

theorem Reads.listedVersions (provider : Provider V) (key : PackageName × Bool) :
    Reads looked (provider.listedVersions key) where
  pinned cache := by
    unfold Provider.listedVersions
    cases cache.versions key with
    | some _ => rfl
    | none => cases provider.source.availableVersions key.1 key.2 <;> rfl
  missed cache name hname := by
    unfold Provider.listedVersions at hname
    cases hversions : cache.versions key with
    | some _ =>
      rw [hversions] at hname
      exact Or.inl hname
    | none =>
      rw [hversions] at hname
      cases h : provider.source.availableVersions key.1 key.2 <;> rw [h] at hname <;> exact Or.inl hname

/-- Names that are not looked up in vain stay consistent. -/
theorem Reads.consistent (h : Reads looked m) (hcache : cache.Consistent) :
    (m cache).2.Consistent := by
  intro name hname
  rw [h.pinned]
  rcases h.missed cache name hname with hold | ⟨hnone, _⟩
  · exact hcache name hold
  · exact hnone

theorem Reads.mapResult (h : Reads looked m) (f : Except Error α → Except Error β) :
    Reads looked (fun cache ↦ (f (m cache).1, (m cache).2)) :=
  ⟨h.pinned, h.missed⟩

theorem Provider.reads (provider : Provider V) : Composed provider fun _ m ↦ Reads looked m where
  result := .result
  bind := .bind
  mapResult := .mapResult
  listedVersions := .listedVersions provider

theorem Reads.prioritize [Versions V] (provider : Provider V) (package : PonPackage) (range : Ranges V) (conflictCount : ℕ) :
    Reads (fun _ ↦ True) (provider.prioritize package range conflictCount) :=
  provider.reads.prioritize (fun _ ↦ .pinnedCandidate trivial) package range conflictCount

variable [LinearOrder V] [Versions V] (provider : Provider V)

theorem Reads.metadataForDist {name : PackageName} (hname : looked name) (version : V) :
    Reads looked (provider.metadataForDist name version) :=
  provider.reads.metadataForDist (.pinnedCandidate hname) version

theorem Reads.addRequirementEdges {requirement : Requirement V} (hgit : requirement.gitUrl = none)
    (hname : looked requirement.name) (edges : List (Edge V)) (extras : List ExtraName) :
    Reads looked (provider.addRequirementEdges edges requirement extras) :=
  provider.reads.addRequirementEdges (.pinnedCandidate hname)
    (fun _ hurl ↦ by cases hgit.symm.trans hurl) edges extras

theorem Reads.chooseVersion (package : PonPackage) (range : Ranges V) :
    Reads (fun _ ↦ True) (provider.chooseVersion package range) :=
  provider.reads.chooseVersion (fun _ ↦ .pinnedCandidate trivial) package range

end Reads

/-! ## Pins in the middle of solving -/

/-- The git requirements of a list that are not pinned yet name distributions that have not been
looked up, neither before nor by an earlier requirement of the list. -/
def PinsUnseen (cache : Cache V) (requirements : List (Requirement V)) : Prop :=
  ∀ front requirement back, requirements = front ++ requirement :: back →
    requirement.gitUrl.isSome = true → cache.pinned requirement.name = none →
    requirement.name ∉ cache.missed ∧
      ∀ earlier ∈ front, earlier.name = requirement.name → earlier.gitUrl.isSome = true

/-- The condition on a question: the requirements that it expands pin only distributions that nobody
has looked up, and not the distribution that is being expanded. -/
def Provider.Unseen [LinearOrder V] [Versions V] (provider : Provider V) (cache : Cache V) :
    Call V → Prop
  | .prioritize .. | .chooseVersion .. => True
  | .getDependencies package version =>
      PinsUnseen cache (provider.requirements cache package version) ∧
        ∀ own, package.distName = some own → cache.pinned own = none →
          ∀ requirement ∈ provider.requirements cache package version,
            requirement.gitUrl.isSome = true → requirement.name ≠ own

/-- Every question of a sequence meets the condition in the state in which it is asked. -/
def Provider.AsksUnseen [LinearOrder V] [Versions V] (provider : Provider V) :
    Cache V → List (Call V) → Prop
  | _, [] => True
  | cache, call :: rest =>
      provider.Unseen cache call ∧ provider.AsksUnseen (provider.answer call cache).2 rest

/-- The same question gets the same answer, wherever in the sequence it is asked. -/
def Provider.Stable [LinearOrder V] [Versions V] (provider : Provider V) (calls : List (Call V)) :
    Prop :=
  ∀ (i j : ℕ) (call : Call V), calls[i]? = some call → calls[j]? = some call →
    (provider.answers provider.initial calls)[i]? = (provider.answers provider.initial calls)[j]?

variable {requirement : Requirement V}

theorem PinsUnseen.tail (h : PinsUnseen cache (requirement :: rest)) : PinsUnseen cache rest := by
  intro front other back heq hgit hnone
  obtain ⟨hmissed, hfront⟩ := h (requirement :: front) other back (by rw [heq]; rfl) hgit hnone
  exact ⟨hmissed, fun earlier hearlier ↦ hfront earlier (List.mem_cons_of_mem _ hearlier)⟩

/-- After the first requirement of the list the others still pin unseen names. -/
theorem PinsUnseen.step {later : Cache V}
    (h : PinsUnseen cache (requirement :: rest))
    (hpinned : ∀ name candidate, cache.pinned name = some candidate →
      later.pinned name = some candidate)
    (hmissed : ∀ name ∈ later.missed, name ∈ cache.missed ∨
      name = requirement.name ∧ requirement.gitUrl = none) : PinsUnseen later rest := by
  intro front other back heq hgit hnone
  have hnone' : cache.pinned other.name = none := by
    cases hcache : cache.pinned other.name with
    | none => rfl
    | some candidate =>
      rw [hpinned _ candidate hcache] at hnone
      cases hnone
  obtain ⟨hunseen, hfront⟩ := h (requirement :: front) other back (by rw [heq]; rfl) hgit hnone'
  refine ⟨fun hmem ↦ ?_, fun earlier hearlier ↦ hfront earlier (List.mem_cons_of_mem _ hearlier)⟩
  rcases hmissed _ hmem with hold | ⟨hsame, hplain⟩
  · exact hunseen hold
  · have hsome := hfront requirement List.mem_cons_self hsame.symm
    rw [hplain] at hsome
    cases hsome

theorem Provider.initial_valid (provider : Provider V) : provider.ValidCache provider.initial := by
  refine ⟨fun key versions h ↦ (by cases h), fun name candidate h ↦ ?_⟩
  obtain ⟨input, _, hinput⟩ := List.mem_filterMap.mp (List.mem_of_getLast? h)
  cases input with
  | registry _ => cases hinput
  | pinned other =>
    by_cases hname : other.name = name
    · simp only [hname, if_true, Option.some.injEq] at hinput
      rw [← hinput, hname]
    · simp only [hname, if_false] at hinput
      cases hinput

theorem Provider.initial_consistent (provider : Provider V) : provider.initial.Consistent := by
  intro name h
  cases h

section Pins

variable [LinearOrder V] [Versions V] {provider : Provider V} {extras : List ExtraName}
  (edges : List (Edge V))

theorem Provider.addRequirementEdges_unmarked (cache : Cache V)
    (hmarker : requirement.evaluateMarkers provider.markers extras = false) :
    provider.addRequirementEdges edges requirement extras cache = (.ok edges, cache) := by
  simp only [Provider.addRequirementEdges, hmarker]
  rfl

theorem Provider.addRequirementEdges_git {url : Text} (cache : Cache V)
    (hmarker : requirement.evaluateMarkers provider.markers extras = true)
    (hgit : requirement.gitUrl = some url) :
    provider.addRequirementEdges edges requirement extras cache =
      (provider.ensurePinnedGitRequirement requirement url >>= fun candidate ↦
        Pure.pure (edges ++ edgesTo requirement.name requirement.extras
          (provider.applyConstraints candidate.name (.singleton candidate.version)
            [candidate.version]))) cache := by
  simp only [Provider.addRequirementEdges, hmarker, hgit]
  rfl

variable {cache : Cache V}

/-- One requirement: the tables stay consistent, and the rest of the list still pins unseen names. -/
theorem Provider.addRequirementEdges_consistent (hcache : cache.Consistent)
    (requirement : Requirement V) (rest : List (Requirement V)) (edges : List (Edge V))
    (extras : List ExtraName)
    (h : PinsUnseen cache (if requirement.evaluateMarkers provider.markers extras then
      requirement :: rest else rest)) :
    (provider.addRequirementEdges edges requirement extras cache).2.Consistent ∧
      ∀ result, (provider.addRequirementEdges edges requirement extras cache).1 = .ok result →
        PinsUnseen (provider.addRequirementEdges edges requirement extras cache).2 rest := by
  cases hmarker : requirement.evaluateMarkers provider.markers extras with
  | false =>
    rw [hmarker, if_neg Bool.false_ne_true] at h
    rw [provider.addRequirementEdges_unmarked _ _ hmarker]
    exact ⟨hcache, fun _ _ ↦ h⟩
  | true =>
    rw [hmarker, if_pos rfl] at h
    cases hgit : requirement.gitUrl with
    | none =>
      have hreads := @Reads.addRequirementEdges _ (· = requirement.name) _ _ provider _ hgit rfl
        edges extras
      refine ⟨hreads.consistent hcache, fun _ _ ↦ h.step ?_ ?_⟩
      · intro name candidate hsome
        rw [hreads.pinned]
        exact hsome
      · intro name hname
        rcases hreads.missed cache name hname with hold | ⟨_, hsame⟩
        · exact Or.inl hold
        · exact Or.inr ⟨hsame, hgit⟩
    | some url =>
      rw [provider.addRequirementEdges_git _ _ hmarker hgit, bind_apply, provider.ensurePinned_apply]
      cases hpinned : cache.pinned requirement.name with
      | some candidate =>
        exact ⟨hcache, fun _ _ ↦ h.tail⟩
      | none =>
        have hunseen := (h [] requirement rest rfl (by rw [hgit]; rfl) hpinned).1
        cases hcheckout : provider.checkout requirement url with
        | ok candidate =>
          refine ⟨fun name hname ↦ ?_, fun _ _ ↦ h.step ?_ fun name hname ↦ Or.inl hname⟩
          · have hne : name ≠ requirement.name := fun heq ↦ hunseen (heq ▸ hname)
            exact (if_neg hne).trans (hcache name hname)
          · intro name other hother
            have hne : name ≠ requirement.name := by
              rintro rfl
              rw [hpinned] at hother
              cases hother
            exact (if_neg hne).trans hother
        | error error =>
          refine ⟨fun name hname ↦ ?_, fun _ hresult ↦ by cases hresult⟩
          rcases List.mem_cons.mp hname with rfl | hold
          · exact hpinned
          · exact hcache name hold

theorem Provider.addAllEdges_consistent (extras : List ExtraName) (requirements : List (Requirement V))
    (hcache : cache.Consistent) (edges : List (Edge V))
    (h : PinsUnseen cache (requirements.filter fun requirement ↦
      requirement.evaluateMarkers provider.markers extras)) :
    (provider.addAllEdges extras edges requirements cache).2.Consistent := by
  induction requirements generalizing cache edges with
  | nil => exact hcache
  | cons requirement rest ih =>
    rw [List.filter_cons] at h
    obtain ⟨hconsistent, hrest⟩ :=
      provider.addRequirementEdges_consistent hcache requirement _ edges extras h
    exact bind_tables hconsistent fun edges' hedges ↦ ih hconsistent edges' (hrest edges' hedges)

theorem Provider.addRootEdges_consistent (inputs : List (ResolvedInput V))
    (hcache : cache.Consistent) (edges : List (Edge V))
    (h : PinsUnseen cache (inputs.filterMap (ResolvedInput.requirement? provider.markers))) :
    (provider.addRootEdges edges inputs cache).2.Consistent := by
  induction inputs generalizing cache edges with
  | nil => exact hcache
  | cons input rest ih =>
    cases input with
    | pinned candidate => exact ih hcache _ h
    | registry requirement =>
      have hlist : PinsUnseen cache (if requirement.evaluateMarkers provider.markers [] then
          requirement :: rest.filterMap (ResolvedInput.requirement? provider.markers)
          else rest.filterMap (ResolvedInput.requirement? provider.markers)) := by
        cases hmarker : requirement.evaluateMarkers provider.markers [] <;>
          simpa [List.filterMap_cons, ResolvedInput.requirement?, hmarker] using h
      obtain ⟨hconsistent, hrest⟩ :=
        provider.addRequirementEdges_consistent hcache requirement _ edges [] hlist
      exact bind_tables hconsistent fun edges' hedges ↦ ih hconsistent edges' (hrest edges' hedges)

/-- The requirements that are expanded are those of the metadata in the state before. -/
theorem Provider.metadataForDist_requiresDist (provider : Provider V) (cache : Cache V)
    (name : PackageName) (version : V) (metadata : CoreMetadata V)
    (h : (provider.metadataForDist name version cache).1 = .ok metadata) :
    metadata.requiresDist = provider.requiresDist cache name version := by
  unfold Provider.metadataForDist at h
  rw [bind_apply] at h
  have hlookup : ∃ cache', pinnedCandidate name cache = (.ok (cache.pinned name), cache') := by
    unfold pinnedCandidate
    cases cache.pinned name <;> exact ⟨_, rfl⟩
  obtain ⟨cache', hlookup⟩ := hlookup
  rw [hlookup] at h
  unfold Provider.requiresDist
  cases hfound : (cache.pinned name).filter fun candidate ↦ decide (candidate.version = version) with
  | some candidate =>
    simp only [hfound] at h
    cases h
    rfl
  | none =>
    simp only [hfound, bind_apply, liftExcept] at h
    cases hmetadata : provider.source.metadata name version with
    | error _ =>
      rw [hmetadata] at h
      cases h
    | ok found =>
      simp only [hmetadata] at h
      cases hpython : found.requiresPython with
      | none =>
        simp only [hpython] at h
        cases h
        simp [hpython]
      | some spec =>
        simp only [hpython] at h
        cases hcontains : VersionSpecifiers.contains spec provider.markers.pythonVersion with
        | false =>
          simp only [hcontains] at h
          cases h
        | true =>
          simp only [hcontains] at h
          cases h
          simp [hpython, hcontains]

/-- Expanding a package whose requirements pin unseen names only keeps the tables consistent. -/
theorem Provider.expand_consistent (hcache : cache.Consistent) (name : PackageName)
    (version : V) (edges : List (Edge V)) (extras : List ExtraName)
    (h : PinsUnseen cache ((provider.requiresDist cache name version).filter
      fun requirement ↦ requirement.evaluateMarkers provider.markers extras))
    (hown : cache.pinned name = none → ∀ requirement ∈ (provider.requiresDist cache name version).filter
      fun requirement ↦ requirement.evaluateMarkers provider.markers extras,
      requirement.gitUrl.isSome = true → requirement.name ≠ name) :
    ((provider.metadataForDist name version >>= fun metadata ↦
      provider.addAllEdges extras edges metadata.requiresDist) cache).2.Consistent := by
  have hreads := @Reads.metadataForDist _ (· = name) _ _ provider _ rfl version
  have hconsistent := hreads.consistent hcache
  refine bind_tables hconsistent fun metadata hresult ↦ ?_
  apply provider.addAllEdges_consistent extras _ hconsistent
  rw [provider.metadataForDist_requiresDist cache name version metadata hresult]
  -- The lookup of the name itself is the only one before the requirements.
  intro front requirement back heq hgit hnone
  rw [hreads.pinned] at hnone
  obtain ⟨hunseen, hfront⟩ := h front requirement back heq hgit hnone
  refine ⟨fun hmem ↦ ?_, hfront⟩
  rcases hreads.missed cache requirement.name hmem with hold | ⟨hunpinned, hsame⟩
  · exact hunseen hold
  · have hin : requirement ∈ (provider.requiresDist cache name version).filter
        fun requirement ↦ requirement.evaluateMarkers provider.markers extras := by
      rw [heq]
      simp
    exact hown (hsame ▸ hunpinned) requirement hin hgit hsame

theorem Provider.dependencyEdges_consistent (hcache : cache.Consistent)
    (package : PonPackage) (version : V)
    (h : provider.Unseen cache (.getDependencies package version)) :
    (provider.dependencyEdges package version cache).2.Consistent := by
  obtain ⟨hunseen, hown⟩ := h
  cases package with
  | root => exact provider.addRootEdges_consistent _ hcache [] hunseen
  | dist name | extra name _ =>
    dsimp only [Provider.dependencyEdges]
    cases hdeps : provider.noDeps with
    | true => exact hcache
    | false =>
      simp only [Provider.requirements, hdeps] at hunseen hown
      exact provider.expand_consistent hcache name version _ _ hunseen (hown name rfl)

/-- The tables after a package has been expanded for the solver. -/
theorem Provider.getDependencies_tables (provider : Provider V) (package : PonPackage) (version : V)
    (cache : Cache V) : (provider.answer (.getDependencies package version) cache).2 =
      (provider.dependencyEdges package version cache).2 := rfl

/-- What a question leaves in the tables. -/
theorem Provider.answer_consistent (hcache : cache.Consistent) (call : Call V)
    (h : provider.Unseen cache call) : (provider.answer call cache).2.Consistent := by
  cases call with
  | prioritize package range conflictCount =>
    exact (Reads.prioritize provider package range conflictCount).consistent hcache
  | chooseVersion package range => exact (Reads.chooseVersion provider package range).consistent hcache
  | getDependencies package version =>
    rw [provider.getDependencies_tables]
    exact provider.dependencyEdges_consistent hcache package version h

variable (calls : List (Call V))

theorem Provider.answers_getElem? (cache : Cache V) (i : ℕ) (call : Call V)
    (h : calls[i]? = some call) :
    (provider.answers cache calls)[i]? =
      some (provider.answer call (provider.after cache (calls.take i))).1 := by
  induction calls generalizing cache i with
  | nil => simp at h
  | cons first rest ih =>
    cases i with
    | zero =>
      cases h
      rfl
    | succ i => exact ih _ i h

theorem Provider.after_grows (cache : Cache V) :
    Grows cache (provider.after cache calls) := by
  induction calls generalizing cache with
  | nil => exact .refl cache
  | cons call rest ih => exact (provider.answer_grows call cache).trans (ih _)

theorem Provider.after_valid (h : provider.ValidCache cache) :
    provider.ValidCache (provider.after cache calls) := by
  induction calls generalizing cache with
  | nil => exact h
  | cons call rest ih => exact ih (provider.answer_valid call h)

theorem Provider.after_append (front back : List (Call V)) (cache : Cache V) :
    provider.after cache (front ++ back) = provider.after (provider.after cache front) back :=
  List.foldl_append

/-- The tables after a sequence, from the state in which one of its questions is asked. -/
theorem Provider.after_split (cache : Cache V) {i : ℕ} {call : Call V}
    (h : calls[i]? = some call) : provider.after cache calls =
      provider.after (provider.answer call (provider.after cache (calls.take i))).2
        (calls.drop (i + 1)) := by
  obtain ⟨hlen, heq⟩ := List.getElem?_eq_some_iff.mp h
  have hsplit : calls = calls.take i ++ call :: calls.drop (i + 1) := by
    rw [← heq, List.getElem_cons_drop, List.take_append_drop]
  conv_lhs => rw [hsplit, provider.after_append]
  rfl

/-- The tables stay consistent in the middle of a sequence, too. -/
theorem Provider.AsksUnseen.after_consistent {calls : List (Call V)}
    (h : provider.AsksUnseen cache calls) (hcache : cache.Consistent) (i : ℕ) :
    (provider.after cache (calls.take i)).Consistent := by
  induction calls generalizing cache i with
  | nil =>
    rw [List.take_nil]
    exact hcache
  | cons call rest ih =>
    cases i with
    | zero => exact hcache
    | succ i => exact ih h.2 (provider.answer_consistent hcache call h.1) i

/-- In a sequence of questions that pin only distributions nobody has looked up, a question that is
asked again gets the same answer. -/
theorem Provider.stable_of_asksUnseen (provider : Provider V) (calls : List (Call V))
    (h : provider.AsksUnseen provider.initial calls) : provider.Stable calls := by
  have hordered : ∀ (i j : ℕ) (call : Call V), i < j → calls[i]? = some call → calls[j]? = some call →
      (provider.answers provider.initial calls)[i]? = (provider.answers provider.initial calls)[j]? := by
    intro i j call hlt hi hj
    rw [provider.answers_getElem? calls _ i call hi, provider.answers_getElem? calls _ j call hj]
    have hsplit : provider.after provider.initial (calls.take j) =
        provider.after (provider.answer call (provider.after provider.initial (calls.take i))).2
          ((calls.take j).drop (i + 1)) := by
      have hget : (calls.take j)[i]? = some call := by
        rw [List.getElem?_take_of_lt hlt, hi]
      rw [provider.after_split (calls.take j) provider.initial hget, List.take_take,
        Nat.min_eq_left hlt.le]
    have hgrows := provider.after_grows ((calls.take j).drop (i + 1))
      (provider.answer call (provider.after provider.initial (calls.take i))).2
    rw [← hsplit] at hgrows
    have hlater := hgrows.later (h.after_consistent provider.initial_consistent j)
    have hsteady := provider.answer_again call _ _
      (provider.after_valid (calls.take i) provider.initial_valid)
      (provider.after_valid (calls.take j) provider.initial_valid) hlater
    rw [hsteady]
  intro i j call hi hj
  rcases Nat.lt_trichotomy i j with hlt | rfl | hlt
  · exact hordered i j call hlt hi hj
  · rfl
  · exact (hordered j i call hlt hj hi).symm

end Pins

/-! ## A git requirement in the metadata of a package -/

/-- Final releases with one number. -/
instance : Versions ℕ where
  zero := 0
  anyPrerelease _ := false
  display version := (Nat.repr version).toList
  accepts
    | .equal, version, candidate | .equalStar, version, candidate
    | .exactEqual, version, candidate => candidate == version
    | .notEqual, version, candidate | .notEqualStar, version, candidate => candidate != version
    | .lessThan, version, candidate => decide (candidate < version)
    | .lessThanEqual, version, candidate => decide (candidate ≤ version)
    | .greaterThan, version, candidate => decide (version < candidate)
    | .greaterThanEqual, version, candidate | .tildeEqual, version, candidate =>
        decide (version ≤ candidate)

def nameA : PackageName := ⟨['a'], by decide⟩

def nameB : PackageName := ⟨['b'], by decide⟩

/-- A requirement without extras whose marker holds. -/
def plainRequirement (name : PackageName) (versionOrUrl : Option (VersionOrUrl ℕ)) : Requirement ℕ where
  name
  extras := []
  versionOrUrl
  evaluateMarkers _ _ := true

/-- A source in which every listed version has a pure wheel. -/
def listedSource (versions : PackageName → List ℕ)
    (requiresDist : PackageName → ℕ → List (Requirement ℕ)) : CandidateSource ℕ where
  availableVersions name _ := .ok (versions name)
  artifacts _ _ := .ok { wheels := [{ filename := ['w'], kind := .pure }], sdist := none }
  metadata name version := .ok { requiresDist := requiresDist name version, requiresPython := none }

/-- The provider asks for `b`, whose metadata requires `a` from a git URL that holds version 1 of it;
the index has versions 1 and 2 of `a`. -/
def gitProvider : Provider ℕ where
  source := listedSource (fun name ↦ if name = nameA then [1, 2] else [1])
    fun name _ ↦ if name = nameB then
      [plainRequirement nameA (some (.url ['g', 'i', 't', '+', 'u']))] else []
  markers := { pythonVersion := 3, value := fun _ ↦ [] }
  allowPrerelease := false
  rootReqs := [.registry (plainRequirement nameA none), .registry (plainRequirement nameB none)]
  constraints _ := []
  noDeps := false
  pinGitUrl url := .ok
    { name := nameA, version := 1, kind := .pure, dependencies := [], artifact := .vcs url none [] [] }
  pythonMessage _ _ _ := []

theorem pinsUnseen_singleton {V : Type} {cache : Cache V} {requirement : Requirement V}
    (h : requirement.name ∉ cache.missed ∨ cache.pinned requirement.name ≠ none) :
    PinsUnseen cache [requirement] := by
  intro front other back heq _ hnone
  have hfront : front = [] := by
    cases front with
    | nil => rfl
    | cons _ rest => simp at heq
  subst hfront
  obtain ⟨rfl, _⟩ : requirement = other ∧ back = [] := by simpa using heq
  exact ⟨h.resolve_right fun hpinned ↦ hpinned hnone, fun _ hmem ↦ by cases hmem⟩

/-- Expanding `b` before `a` has been looked up. -/
theorem stable_of_asksUnseen_git :
    gitProvider.Stable [.getDependencies (.dist nameB) 1, .chooseVersion (.dist nameA) fun _ ↦ true,
      .getDependencies (.dist nameB) 1] := by
  apply gitProvider.stable_of_asksUnseen
  have hne : nameA ≠ nameB := by decide
  have hown : ∀ own, (PonPackage.dist nameB).distName = some own → own = nameB := by
    intro own h
    exact (Option.some.inj h).symm
  refine ⟨⟨pinsUnseen_singleton (Or.inl List.not_mem_nil), ?_⟩, trivial,
    ⟨pinsUnseen_singleton (Or.inr ?_), ?_⟩, trivial⟩
  · rintro own hpackage _ requirement hrequirement _
    rw [List.mem_singleton.mp hrequirement, hown own hpackage]
    exact hne
  · exact fun hnone ↦ Option.some_ne_none _ hnone
  · rintro own hpackage _ requirement hrequirement _
    rw [List.mem_singleton.mp hrequirement, hown own hpackage]
    exact hne

/-- The best version of `a` is 2 before `b` is expanded, and 1 afterwards. -/
theorem pin_changes_answer :
    ¬ ∀ (provider : Provider ℕ) (calls : List (Call ℕ)), provider.Stable calls := by
  intro hstable
  have hsame := hstable gitProvider [.chooseVersion (.dist nameA) fun _ ↦ true,
    .getDependencies (.dist nameB) 1, .chooseVersion (.dist nameA) fun _ ↦ true] 0 2 _ rfl rfl
  have hbefore : (gitProvider.answers gitProvider.initial [.chooseVersion (.dist nameA) fun _ ↦ true,
    .getDependencies (.dist nameB) 1, .chooseVersion (.dist nameA) fun _ ↦ true])[0]? =
      some (.version (.ok (some 2))) := rfl
  have hafter : (gitProvider.answers gitProvider.initial [.chooseVersion (.dist nameA) fun _ ↦ true,
    .getDependencies (.dist nameB) 1, .chooseVersion (.dist nameA) fun _ ↦ true])[2]? =
      some (.version (.ok (some 1))) := rfl
  rw [hbefore, hafter] at hsame
  simp at hsame

end Pon.Resolve
