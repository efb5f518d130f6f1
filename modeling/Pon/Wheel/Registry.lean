import Pon.Package.Registry
import Pon.Wheel.Exactness

/-!
# The registry of an environment

The registry is written by upserts and removals only, as long as no installation extracts a file over
it. It then lists every package once, sorted by normalized name, whatever calls have been made before,
including calls that fail on their way.
-/

namespace Pon.Package

open Effect Paths

/-! ## What requests do -/

variable {σ α : Type}

/-- The computation changes the state by the requests of its log, which are all of one kind. -/
def Moves (fs : FileSystem σ) (allowed : Request → Prop) (m : FsM σ α) : Prop :=
  Traced (fun request state after ↦ allowed request ∧ request.Does fs state after) m

end Pon.Package

namespace Pon.Wheel

open Package Paths Effect

/-! ## Removing files -/

section Removing

variable {σ : Type} {fs : FileSystem σ} {root : Path}

theorem Removes.moves {α : Type} {m : FsM σ α} (h : Removes fs root False m) :
    Moves fs Request.IsRemoval m :=
  h.mono fun _ _ _ step ↦ step.2

theorem moves_removeRecordFiles (recordPath : Text) :
    Moves fs Request.IsRemoval (removeRecordFiles fs (EnvLayout.new root) recordPath) := by
  refine (Traced.settled _).bind fun full ↦ (Traced.query _).bind fun result ↦ ?_
  cases result with
  | error _ => exact .throw _
  | ok text => exact (Traced.settled _).bind fun entries ↦ (removes_removeRecordEntries entries nofun).moves

variable (record : InstalledPackageRecord)

theorem moves_findLegacyRecordPath :
    Moves fs Request.IsRemoval (findLegacyRecordPath fs (EnvLayout.new root) record) := by
  refine (Traced.query _).bind fun result ↦ ?_
  obtain error | entries := result
  · cases error <;> first | exact .pure _ | exact .throw _
  · exact (Traced.query _).bind fun _ ↦ .pure _

theorem moves_removeInstalledFiles :
    Moves fs Request.IsRemoval (removeInstalledFiles fs (EnvLayout.new root) record) := by
  unfold removeInstalledFiles
  cases record.recordPath with
  | some recordPath => exact moves_removeRecordFiles recordPath
  | none =>
    refine (moves_findLegacyRecordPath record).bind fun found ↦ ?_
    cases found with
    | some recordPath => exact moves_removeRecordFiles recordPath
    | none => exact (removes_removeImportRoots nofun _).moves

end Removing

/-! ## Installing a package -/

section Install

variable {σ : Type} (fs : FileSystem σ) (host : Host) (env : EnvLayout)

/-- What a package is installed from. The installers of directories, editable, local and native, put
their files in place and end with one row in the registry; an sdist is built into a wheel first. -/
inductive Artifact (σ : Type) where
  | wheel (path : Text) (archive : Except Error Archive) (directUrl : Option (Except Error Text))
  | sdist (build : FsM σ (ResolvedRecord × Text × Except Error Archive))
  | dir (place : FsM σ InstalledPackageRecord)

def installArtifact (resolved : ResolvedRecord) : Artifact σ → FsM σ InstallReport
  | .wheel path archive directUrl => installWheel fs host env resolved path archive directUrl
  | .sdist build => do
      let built ← build
      installWheel fs host env built.1 built.2.1 built.2.2 none
  | .dir place => place >>= register fs env

/-- A package of another version is removed first. -/
def installPackage (resolved : ResolvedRecord) (artifact : Artifact σ) : FsM σ InstallReport := do
  let records ← readInstalledPackages fs env
  match records.find? fun candidate ↦
      Package.normalize candidate.name = Package.normalize resolved.name with
  | none => installArtifact fs host env resolved artifact
  | some existing =>
      if existing.version = resolved.version then pure (report existing)
      else do
        let _ ← removeInstalledPackage fs env existing.name
        installArtifact fs host env resolved artifact

/-- A call that changes the registry. -/
inductive Call (σ : Type) where
  | upsert (record : InstalledPackageRecord)
  | remove (name : Text)
  | install (resolved : ResolvedRecord) (artifact : Artifact σ)

/-- The state after a call, which may have failed. -/
def Call.after (state : σ) : Call σ → σ
  | .upsert record => (upsertInstalledPackage fs env record state).state
  | .remove name => (removeInstalledPackage fs env name state).state
  | .install resolved artifact => (installPackage fs host env resolved artifact state).state

end Install

/-! ## The registry file -/

section File

variable {σ : Type} (fs : FileSystem σ) (env : EnvLayout)

/-- The registry is as before, or cannot be read as a text. -/
def Keeps (state after : σ) : Prop :=
  ∀ text, fs.read env.registryPath after = .ok (.text text) →
    fs.read env.registryPath state = .ok (.text text)

/-- What a file system does to the registry file: a write that succeeds replaces it, one that fails may
have written a part, and nothing else gives it another text. -/
structure KeepsRegistry : Prop where
  written : ∀ content state, (fs.write env.registryPath content state).1 = .ok () →
    fs.read env.registryPath (fs.write env.registryPath content state).2 = .ok content
  unwritten : ∀ content state error, (fs.write env.registryPath content state).1 = .error error →
    ∀ text, fs.read env.registryPath (fs.write env.registryPath content state).2 = .ok (.text text) →
      fs.read env.registryPath state = .ok (.text text) ∨ ∃ whole, content = .text whole ∧ text <+: whole
  elsewhere : ∀ path content state, location path ≠ location env.registryPath →
    Keeps fs env state (fs.write path content state).2
  createDirAll : ∀ path state, Keeps fs env state (fs.createDirAll path state).2
  above : ∀ dir state, parent env.registryPath = some dir →
    fs.read env.registryPath (fs.createDirAll dir state).2 = fs.read env.registryPath state
  setExecutable : ∀ path state, Keeps fs env state (fs.setExecutable path state).2
  removeFile : ∀ path state, Keeps fs env state (fs.removeFile path state).2
  removeDir : ∀ path state, Keeps fs env state (fs.removeDir path state).2
  removeDirAll : ∀ path state, Keeps fs env state (fs.removeDirAll path state).2

/-- What can be read of the registry has one row for each normalized name, sorted by it. -/
def RegistrySorted (state : σ) : Prop :=
  ∀ text records, fs.read env.registryPath state = .ok (.text text) →
    parseRegistry text (display env.registryPath) = .ok records → SortedByName records

/-- A request that does not write to the registry file. -/
def SparesRegistry : Request → Prop
  | .write path => location path ≠ location env.registryPath
  | _ => True

/-- The computation puts files in place, and none over the registry. -/
def PlacesFiles {α : Type} (m : FsM σ α) : Prop :=
  Moves fs Request.IsPlacing m ∧ Emits (SparesRegistry env) m

/-- The installation extracts, builds or copies no file over the registry. -/
def Artifact.Spares (host : Host) (resolved : ResolvedRecord) : Artifact σ → Prop
  | .wheel path archive _ => ∀ prepared, prepareWheel host resolved path archive = .ok prepared →
      prepared.SparesRegistries host env
  | .sdist build => PlacesFiles fs env build ∧ ∀ state built, (build state).result = .ok built →
      ∀ prepared, prepareWheel host built.1 built.2.1 built.2.2 = .ok prepared →
        prepared.SparesRegistries host env
  | .dir place => PlacesFiles fs env place

def Call.Spares (host : Host) : Call σ → Prop
  | .install resolved artifact => artifact.Spares fs env host resolved
  | _ => True

/-- The states that calls of a kind lead to. -/
def Reachable (host : Host) (allowed : Call σ → Prop) : σ → σ → Prop :=
  Relation.ReflTransGen fun state after ↦ ∃ call, allowed call ∧ after = call.after fs host env state

/-- The directory of the registry is made before its rows are checked. -/
def createRegistryDir : FsM σ Unit :=
  match parent env.registryPath with
  | some dir => fs.mkdirs dir
  | none => pure ()

def putRows (records : List InstalledPackageRecord) : FsM σ Unit := do
  let content ← settled (registryText records)
  fs.putRegistry env.registryPath (.text content)

theorem writeInstalledPackages_eq (records : List InstalledPackageRecord) :
    writeInstalledPackages fs env records = createRegistryDir fs env >>= fun _ ↦ putRows fs env records := by
  unfold writeInstalledPackages createRegistryDir
  cases parent env.registryPath <;> rfl

end File

section Kept

variable {σ : Type} {fs : FileSystem σ} {env : EnvLayout}

theorem Keeps.refl (state : σ) : Keeps fs env state state := fun _ read ↦ read

theorem Keeps.trans {a b c : σ} (h : Keeps fs env a b) (h' : Keeps fs env b c) : Keeps fs env a c :=
  fun text read ↦ h text (h' text read)

variable {state : σ} {records : List InstalledPackageRecord}

theorem Keeps.registrySorted {after : σ} (h : Keeps fs env state after)
    (sorted : RegistrySorted fs env state) : RegistrySorted fs env after :=
  fun text records read parsed ↦ sorted text records (h text read) parsed

variable (law : KeepsRegistry fs env)
include law

variable {α : Type} {m : FsM σ α}

theorem keeps_of_placesFiles (h : PlacesFiles fs env m) (state : σ) :
    Keeps fs env state (m state).state := by
  refine (h.1 state).keeps Keeps.refl Keeps.trans fun request mem state after step ↦ ?_
  obtain ⟨isPlacing, does⟩ := step
  have spared := h.2 _ request mem
  cases request with
  | createDir path => exact does ▸ law.createDirAll path state
  | write path =>
    obtain ⟨content, rfl⟩ := does
    exact law.elsewhere path content state spared
  | register path => exact absurd isPlacing id
  | setExecutable path => exact does ▸ law.setExecutable path state
  | removeFile path => exact does ▸ law.removeFile path state
  | removeDir path => exact does ▸ law.removeDir path state
  | removeDirAll path => exact does ▸ law.removeDirAll path state

theorem keeps_of_removal (h : Moves fs Request.IsRemoval m) (state : σ) :
    Keeps fs env state (m state).state := by
  refine (h state).keeps Keeps.refl Keeps.trans fun request _ state after step ↦ ?_
  obtain ⟨isRemoval, does⟩ := step
  cases request with
  | removeFile path => exact does ▸ law.removeFile path state
  | removeDir path => exact does ▸ law.removeDir path state
  | removeDirAll path => exact does ▸ law.removeDirAll path state
  | createDir path | write path | register path | setExecutable path => exact absurd isRemoval id

theorem read_createRegistryDir (state : σ) :
    fs.read env.registryPath (createRegistryDir fs env state).state = fs.read env.registryPath state := by
  unfold createRegistryDir
  cases above : parent env.registryPath with
  | none => rfl
  | some dir => exact law.above dir state above

/-- Writing sorted rows leaves a sorted registry, whether all of them are written or not. -/
theorem preserves_putRows (sorted : SortedByName records) :
    Preserves (RegistrySorted fs env) (putRows fs env records) := by
  intro state before
  unfold putRows
  cases written : registryText records with
  | error _ => exact before
  | ok whole =>
    intro text read isText parsed
    change fs.read env.registryPath (fs.write env.registryPath (.text whole) state).2 = _ at isText
    cases result : (fs.write env.registryPath (.text whole) state).1 with
    | ok _ =>
      rw [law.written _ _ result] at isText
      obtain rfl := Content.text.inj (Except.ok.inj isText)
      rw [parseRegistry_text written] at parsed
      obtain rfl := Except.ok.inj parsed
      exact sorted.readBack
    | error error =>
      obtain same | ⟨content, isWhole, front⟩ := law.unwritten _ _ _ result text isText
      · exact before text read same parsed
      · obtain rfl := Content.text.inj isWhole
        exact sorted.of_names (names_of_parseRegistry written front parsed)

theorem preserves_writeInstalledPackages (sorted : SortedByName records) :
    Preserves (RegistrySorted fs env) (writeInstalledPackages fs env records) := by
  have dir : Preserves (RegistrySorted fs env) (createRegistryDir fs env) := fun state before text read ↦
    read_createRegistryDir law state ▸ before text read
  rw [writeInstalledPackages_eq]
  exact dir.bind fun _ ↦ preserves_putRows law sorted

omit law in
theorem sorted_of_readInstalledPackages (sorted : RegistrySorted fs env state)
    (h : (readInstalledPackages fs env state).result = .ok records) : SortedByName records := by
  unfold readInstalledPackages at h
  obtain ⟨answer, asked, h⟩ := of_bind_ok h
  obtain rfl := Except.ok.inj asked
  cases content : fs.read env.registryPath state with
  | error error =>
    rw [content] at h
    cases error with
    | notFound =>
      obtain rfl := Except.ok.inj h
      exact List.Pairwise.nil
    | directoryNotEmpty | other => cases h
  | ok content' =>
    rw [content] at h
    cases content' with
    | text text => exact sorted text records content h
    | binary _ => cases h

variable (record : InstalledPackageRecord)

theorem preserves_upsertInstalledPackage :
    Preserves (RegistrySorted fs env) (upsertInstalledPackage fs env record) := by
  unfold upsertInstalledPackage
  refine (quiet_readInstalledPackages fs env).preserves.bind_of_ok fun state records before read ↦ ?_
  exact preserves_writeInstalledPackages law ((sorted_of_readInstalledPackages before read).upsert record)

omit law in
theorem preserves_removeInstalledPackage {root : Path} (law : KeepsRegistry fs (EnvLayout.new root))
    (name : Text) : Preserves (RegistrySorted fs (EnvLayout.new root))
      (removeInstalledPackage fs (EnvLayout.new root) name) := by
  unfold removeInstalledPackage
  refine (quiet_readInstalledPackages fs _).preserves.bind_of_ok fun state records before read ↦ ?_
  have sorted := sorted_of_readInstalledPackages before read
  dsimp only
  split
  · exact (Quiet.pure _).preserves
  · refine Preserves.bind ?_ fun _ ↦ ?_
    · exact fun state before ↦ (keeps_of_removal law (moves_removeInstalledFiles _) state).registrySorted before
    · exact (preserves_writeInstalledPackages law (sorted.eraseP _)).bind fun _ ↦ (Quiet.pure _).preserves

theorem preserves_register :
    Preserves (RegistrySorted fs env) (register fs env record) :=
  (preserves_upsertInstalledPackage law record).bind fun _ ↦ (Quiet.pure _).preserves

/-- Files that are put in place leave the registry sorted. -/
theorem preserves_of_placesFiles (h : PlacesFiles fs env m) :
    Preserves (RegistrySorted fs env) m :=
  fun state ↦ (keeps_of_placesFiles law h state).registrySorted

/-- A list that is refused does not touch the registry. -/
theorem writeInstalledPackages_refused {error : Error} (h : registryText records = .error error)
    (state : σ) :
    (∃ error, (writeInstalledPackages fs env records state).result = .error error) ∧
      fs.read env.registryPath (writeInstalledPackages fs env records state).state =
        fs.read env.registryPath state := by
  have rows : ∀ state, putRows fs env records state = { result := .error error, state, log := [] } := by
    intro state
    unfold putRows
    rw [h]
    rfl
  rw [writeInstalledPackages_eq]
  cases made : (createRegistryDir fs env state).result with
  | error error =>
    rw [bind_error made]
    exact ⟨⟨error, rfl⟩, read_createRegistryDir law state⟩
  | ok _ =>
    rw [bind_ok made, rows]
    exact ⟨⟨error, rfl⟩, read_createRegistryDir law state⟩

/-- A list that is written is read back as its text is parsed. -/
theorem readInstalledPackages_written
    (h : (writeInstalledPackages fs env records state).result = .ok ()) :
    ∃ text, registryText records = .ok text ∧
      (readInstalledPackages fs env (writeInstalledPackages fs env records state).state).result =
        parseRegistry text (display env.registryPath) := by
  rw [writeInstalledPackages_eq] at h ⊢
  obtain ⟨_, made, h⟩ := of_bind_ok h
  rw [bind_ok made]
  generalize (createRegistryDir fs env state).state = state at h ⊢
  unfold putRows at h ⊢
  obtain ⟨text, written, h⟩ := of_settled_bind_ok h
  rw [settled_bind_ok written]
  refine ⟨text, written, ?_⟩
  have put : (fs.write env.registryPath (.text text) state).1 = .ok () := by
    change (fs.write env.registryPath (.text text) state).1.mapError Error.io = .ok () at h
    cases result : (fs.write env.registryPath (.text text) state).1 with
    | error _ =>
      rw [result] at h
      cases h
    | ok _ => rfl
  have answer : (fs.readText env.registryPath (fs.write env.registryPath (.text text) state).2).result =
      .ok (.ok text) := by
    change Except.ok _ = _
    rw [law.written _ _ put]
  unfold readInstalledPackages
  exact bind_ok_result answer _

/-! ## Calls -/

variable {host : Host}

end Kept

/-! ## A file system with a registry -/

/-- A file system that keeps nothing but the registry. -/
def registryFs (env : EnvLayout) : FileSystem (Option Content) where
  createDirAll _ state := (.ok (), state)
  write path content state := (.ok (), if path = env.registryPath then some content else state)
  setExecutable _ state := (.ok (), state)
  removeFile path state := (.ok (), if path = env.registryPath then none else state)
  removeDir _ state := (.ok (), state)
  removeDirAll path state := (.ok (), if path <+: env.registryPath then none else state)
  read path state :=
    if path = env.registryPath then state.elim (.error .notFound) .ok else .error .notFound
  symlinkMetadata _ _ := .error .notFound
  isFile path state := path = env.registryPath ∧ state.isSome
  readDir _ _ := .error .notFound

theorem keepsRegistry_registryFs (env : EnvLayout) : KeepsRegistry (registryFs env) env where
  written content state _ := by simp [registryFs]
  unwritten content state error failed := by simp [registryFs] at failed
  elsewhere path content state apart text read := by
    have other : path ≠ env.registryPath := fun same ↦ apart (congrArg location same)
    simpa [registryFs, other] using read
  createDirAll _ _ _ read := read
  above _ _ _ := rfl
  setExecutable _ _ _ read := read
  removeFile path state text read := by
    by_cases same : path = env.registryPath
    · simp [registryFs, same] at read
    · simpa [registryFs, same] using read
  removeDir _ _ _ read := read
  removeDirAll path state text read := by
    by_cases above : path <+: env.registryPath
    · simp [registryFs, above] at read
    · simpa [registryFs, above] using read

def projectEnv : EnvLayout := EnvLayout.new [.rootDir, .normal "p".toList]

theorem registrySorted_none : RegistrySorted (registryFs projectEnv) projectEnv none := by
  intro text records read
  simp [registryFs] at read

/-! ## Runs -/

section Runs

variable {σ : Type} {fs : FileSystem σ} {root : Path} {host : Host}

variable {resolved : ResolvedRecord}

variable {wheelPath : Text} {archive : Except Error Archive} {artifact : Artifact σ} {state : σ}

/-- A wheel none of whose members leads through a registry file is placed apart from the registry. -/
theorem placesFiles_placeWheel (directUrl : Option (Except Error Text))
    (spares : ∀ prepared, prepareWheel host resolved wheelPath archive = .ok prepared →
      prepared.SparesRegistries host (EnvLayout.new root)) :
    PlacesFiles fs (EnvLayout.new root)
      (placeWheel fs host (EnvLayout.new root) resolved wheelPath archive directUrl) := by
  have places := places_placeWheel fs host resolved wheelPath archive directUrl spares
  refine ⟨places.mono fun _ _ _ h ↦ ⟨h.1.2, h.2⟩, places.emits fun request _ _ h ↦ ?_⟩
  cases request with
  | write path => exact fun same ↦ h.1.1.2 (Or.inl same)
  | createDir _ | register _ | setExecutable _ | removeFile _ | removeDir _ | removeDirAll _ => trivial

variable (law : KeepsRegistry fs (EnvLayout.new root))
include law

theorem preserves_installWheel (directUrl : Option (Except Error Text))
    (spares : ∀ prepared, prepareWheel host resolved wheelPath archive = .ok prepared →
      prepared.SparesRegistries host (EnvLayout.new root)) :
    Preserves (RegistrySorted fs (EnvLayout.new root))
      (installWheel fs host (EnvLayout.new root) resolved wheelPath archive directUrl) := by
  rw [installWheel_eq]
  exact (preserves_of_placesFiles law (placesFiles_placeWheel directUrl spares)).bind
    fun record ↦ preserves_register law record

section

variable (spares : artifact.Spares fs (EnvLayout.new root) host resolved)
include spares

theorem preserves_installArtifact :
    Preserves (RegistrySorted fs (EnvLayout.new root))
      (installArtifact fs host (EnvLayout.new root) resolved artifact) := by
  cases artifact with
  | wheel path archive directUrl => exact preserves_installWheel law directUrl spares
  | sdist build =>
    refine (preserves_of_placesFiles law spares.1).bind_of_ok fun state built _ done ↦ ?_
    exact preserves_installWheel law none (spares.2 state built done)
  | dir place => exact (preserves_of_placesFiles law spares).bind fun record ↦ preserves_register law record

theorem preserves_installPackage :
    Preserves (RegistrySorted fs (EnvLayout.new root))
      (installPackage fs host (EnvLayout.new root) resolved artifact) := by
  unfold installPackage
  refine (quiet_readInstalledPackages fs _).preserves.bind fun records ↦ ?_
  split
  · exact preserves_installArtifact law spares
  · split
    · exact (Quiet.pure _).preserves
    · exact (preserves_removeInstalledPackage law _).bind fun _ ↦ preserves_installArtifact law spares

end

/-- One call keeps the registry sorted, whether it succeeds or fails. -/
theorem registrySorted_after {call : Call σ} (spares : call.Spares fs (EnvLayout.new root) host)
    (sorted : RegistrySorted fs (EnvLayout.new root) state) :
    RegistrySorted fs (EnvLayout.new root) (call.after fs host (EnvLayout.new root) state) := by
  cases call with
  | upsert record => exact preserves_upsertInstalledPackage law record state sorted
  | remove name => exact preserves_removeInstalledPackage law name state sorted
  | install resolved artifact => exact preserves_installPackage law spares state sorted

theorem registrySorted_of_reachable {after : σ}
    (sorted : RegistrySorted fs (EnvLayout.new root) state)
    (reached : Reachable fs (EnvLayout.new root) host (Call.Spares fs (EnvLayout.new root) host) state after) :
    RegistrySorted fs (EnvLayout.new root) after := by
  induction reached with
  | refl => exact sorted
  | tail _ step ih =>
    obtain ⟨call, spares, rfl⟩ := step
    exact registrySorted_after law spares ih

/-- As long as no installation places a file over it, the registry lists every package once, sorted by
normalized name. What is written is read back exactly where no row is blank and nothing is spelled as an
empty import name or an empty path, and a refused row leaves the registry as it is. -/
theorem registry_invariant :
    (∀ state after, RegistrySorted fs (EnvLayout.new root) state →
      Reachable fs (EnvLayout.new root) host (Call.Spares fs (EnvLayout.new root) host) state after →
      RegistrySorted fs (EnvLayout.new root) after) ∧
    (∀ records state, (writeInstalledPackages fs (EnvLayout.new root) records state).result = .ok () →
      ((readInstalledPackages fs (EnvLayout.new root)
          (writeInstalledPackages fs (EnvLayout.new root) records state).state).result = .ok records ↔
        ∀ record ∈ records, ¬record.Blank ∧ record.importNames ≠ [[]] ∧ record.recordPath ≠ some [])) ∧
    ∀ records state refusal, registryText records = .error refusal →
      (∃ error, (writeInstalledPackages fs (EnvLayout.new root) records state).result = .error error) ∧
      fs.read (EnvLayout.new root).registryPath
          (writeInstalledPackages fs (EnvLayout.new root) records state).state =
        fs.read (EnvLayout.new root).registryPath state := by
  refine ⟨fun state after sorted reached ↦ registrySorted_of_reachable law sorted reached, ?_,
    fun records state refusal refused ↦ writeInstalledPackages_refused law refused state⟩
  intro records state done
  obtain ⟨text, written, read⟩ := readInstalledPackages_written law done
  rw [read]
  exact parseRegistry_text_iff written _

end Runs

def plainRecord (name : Text) : InstalledPackageRecord where
  name := name
  version := "1".toList
  artifactKind := "local".toList
  importNames := [name]
  recordPath := none

/-- Two packages are entered in the order of their names, and read back; a name with a tab is refused. -/
theorem registry_invariant_two :
    KeepsRegistry (registryFs projectEnv) projectEnv ∧
    RegistrySorted (registryFs projectEnv) projectEnv
      (Call.after (registryFs projectEnv) linuxHost projectEnv
        (Call.after (registryFs projectEnv) linuxHost projectEnv none (.upsert (plainRecord "b".toList)))
        (.upsert (plainRecord "a".toList))) ∧
    (readInstalledPackages (registryFs projectEnv) projectEnv
        (writeInstalledPackages (registryFs projectEnv) projectEnv [plainRecord "a".toList] none).state).result =
      .ok [plainRecord "a".toList] ∧
    (registryFs projectEnv).read projectEnv.registryPath (writeInstalledPackages (registryFs projectEnv)
        projectEnv [plainRecord "\t".toList] none).state = .error .notFound := by
  have law := keepsRegistry_registryFs projectEnv
  obtain ⟨sorted, written, refused⟩ := @registry_invariant (Option Content) (registryFs projectEnv)
    [.rootDir, .normal "p".toList] linuxHost law
  refine ⟨law, sorted none _ registrySorted_none ?_, ?_, ?_⟩
  · exact (Relation.ReflTransGen.single ⟨.upsert (plainRecord "b".toList), trivial, rfl⟩).tail
      ⟨.upsert (plainRecord "a".toList), trivial, rfl⟩
  · refine (written [plainRecord "a".toList] none (by decide +kernel)).mpr ?_
    refine List.forall_mem_singleton.mpr ⟨fun blank ↦ ?_, fun same ↦ ?_, fun same ↦ ?_⟩
    · exact absurd (blank '1' (by decide)) (by decide)
    · exact absurd (List.singleton_inj.mp same) (List.cons_ne_nil _ _)
    · cases same
  · exact (refused [plainRecord "\t".toList] none _ rfl).2

/-! ## A wheel that brings a registry -/

/-- A member of the data scheme with two rows of one normalized name. -/
def rowsWheel : Archive :=
  [.ok { name := "w-1.dist-info/WHEEL".toList, content := .text "Root-Is-Purelib: true\n".toList
         fault := none },
    .ok { name := "w-1.data/data/packages/installed.tsv".toList, fault := none
          content := .text "a\t1\tx\t\t\nA\t2\tx\t\t\n".toList },
    .ok { name := "w-1.dist-info/RECORD".toList, fault := none
          content := .text ("w-1.dist-info/WHEEL,,\nw-1.data/data/packages/installed.tsv,,\n" ++
            "w-1.dist-info/RECORD,,\n").toList }]

def installRows : Call (Option Content) :=
  .install { name := "w".toList, version := "1".toList }
    (.wheel "w-1-py3-none-any.whl".toList (.ok rowsWheel) none)


/-- The registry after its installation. -/
def rowsRegistry : Text := "a\t1\tx\t\t\nA\t2\tx\t\t\nw\t1\twheel\t\tw-1.dist-info/RECORD\n".toList

theorem after_installRows : installRows.after (registryFs projectEnv) linuxHost projectEnv none =
    some (.text rowsRegistry) := by decide +kernel

/-- Its installation leaves a registry with two rows of one normalized name. -/
theorem registry_unsorted :
    KeepsRegistry (registryFs projectEnv) projectEnv ∧ RegistrySorted (registryFs projectEnv) projectEnv none ∧
    ∃ after, Reachable (registryFs projectEnv) projectEnv linuxHost (fun _ ↦ True) none after ∧
      ¬RegistrySorted (registryFs projectEnv) projectEnv after := by
  refine ⟨keepsRegistry_registryFs projectEnv, registrySorted_none, _,
    .single ⟨installRows, trivial, rfl⟩, ?_⟩
  · rw [after_installRows]
    intro sorted
    have rows : SortedByName
        [{ name := "a".toList, version := "1".toList, artifactKind := "x".toList, importNames := []
           recordPath := none },
          { name := "A".toList, version := "2".toList, artifactKind := "x".toList, importNames := []
            recordPath := none },
          { name := "w".toList, version := "1".toList, artifactKind := "wheel".toList, importNames := []
            recordPath := some "w-1.dist-info/RECORD".toList }] :=
      sorted rowsRegistry _ (by simp [registryFs]) (by decide +kernel)
    have less := (List.pairwise_cons.mp rows).1 _ List.mem_cons_self
    exact absurd less (by decide)

end Pon.Wheel
