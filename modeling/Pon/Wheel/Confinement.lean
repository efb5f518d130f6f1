import Pon.Wheel.Uninstall

/-!
# Where installations write and uninstallations delete

Whatever the file system answers, the requests of an installation and of an uninstallation lead to
places inside the directory `.pon` of the environment. The registry files are in it, too: a member of
the data scheme can be extracted over them, and a row of a RECORD can name them. A project root that
lies two or more levels above the working directory makes the uninstallation look for the environment
in another place.
-/

namespace Pon.Package

open Paths

/-! ## Confined requests -/

/-- The path leads to the registry of the packages or to that of the native modules. -/
def EnvLayout.IsRegistry (env : EnvLayout) (path : Path) : Prop :=
  location path = location env.registryPath ∨ location path = location env.nativeRegistryPath

/-- The request keeps to the inside of `.pon` and away from the registry files, which are written only
as registries. Creating a directory creates the ancestors that it lacks; `.pon` itself and what is
above it come with the environment. -/
def Request.Confined (env : EnvLayout) : Request → Prop
  | .createDir path => ∀ created, created <+: path → created <+: env.ponDir ∨
      StrictlyInside created env.ponDir ∧ ¬ env.IsRegistry created
  | .register path => path = env.registryPath
  | .write path | .setExecutable path | .removeFile path =>
      StrictlyInside path env.ponDir ∧ ¬ env.IsRegistry path
  | .removeDir path => StrictlyInside path env.ponDir
  | .removeDirAll path => StrictlyInside path env.ponDir ∧ ¬ env.IsRegistry path ∧
      ¬ StrictlyInside env.registryPath path ∧ ¬ StrictlyInside env.nativeRegistryPath path

/-- What a request does to the state of a file system. -/
def Request.Does {σ : Type} (fs : FileSystem σ) : Request → σ → σ → Prop
  | .createDir path, state, after => after = (fs.createDirAll path state).2
  | .write path, state, after | .register path, state, after =>
      ∃ content, after = (fs.write path content state).2
  | .setExecutable path, state, after => after = (fs.setExecutable path state).2
  | .removeFile path, state, after => after = (fs.removeFile path state).2
  | .removeDir path, state, after => after = (fs.removeDir path state).2
  | .removeDirAll path, state, after => after = (fs.removeDirAll path state).2

/-- A request other than to write the registry. -/
def Request.IsPlacing : Request → Prop
  | .register _ => False
  | _ => True

def Request.IsRemoval : Request → Prop
  | .removeFile _ | .removeDir _ | .removeDirAll _ => True
  | _ => False

/-! ## The layout of an environment -/

def registryNames : Path := [.normal "packages".toList, .normal "installed.tsv".toList]

def nativeRegistryNames : Path := [.normal "native".toList, .normal "registry.tsv".toList]

/-- A path below `.pon` that does not go through a registry file. -/
def Spared (rest : Path) : Prop := ¬ registryNames <+: rest ∧ ¬ nativeRegistryNames <+: rest

instance : DecidablePred Spared := fun _ ↦ inferInstanceAs (Decidable (_ ∧ _))

section Layout

variable (root : Path)

theorem EnvLayout.new_ponDir : (EnvLayout.new root).ponDir = root ++ [.normal ".pon".toList] := rfl

theorem EnvLayout.new_packagesDir :
    (EnvLayout.new root).packagesDir = (EnvLayout.new root).ponDir ++ [.normal "packages".toList] := rfl

theorem EnvLayout.new_sitePackages : (EnvLayout.new root).sitePackages =
    (EnvLayout.new root).ponDir ++ [.normal "packages".toList, .normal "site-packages".toList] := by
  have hsplit : (EnvLayout.new root).sitePackages =
      (EnvLayout.new root).packagesDir ++ [.normal "site-packages".toList] := rfl
  rw [hsplit, EnvLayout.new_packagesDir, List.append_assoc]
  rfl

theorem EnvLayout.new_scriptsDir :
    (EnvLayout.new root).scriptsDir = (EnvLayout.new root).ponDir ++ [.normal "bin".toList] := rfl

theorem EnvLayout.new_nativeDir :
    (EnvLayout.new root).nativeDir = (EnvLayout.new root).ponDir ++ [.normal "native".toList] := rfl

theorem EnvLayout.new_registryPath :
    (EnvLayout.new root).registryPath = (EnvLayout.new root).ponDir ++ registryNames := by
  have hsplit : (EnvLayout.new root).registryPath =
      (EnvLayout.new root).packagesDir ++ [.normal "installed.tsv".toList] := rfl
  rw [hsplit, EnvLayout.new_packagesDir, List.append_assoc]
  rfl

theorem EnvLayout.new_nativeRegistryPath :
    (EnvLayout.new root).nativeRegistryPath = (EnvLayout.new root).ponDir ++ nativeRegistryNames := by
  have hsplit : (EnvLayout.new root).nativeRegistryPath =
      (EnvLayout.new root).nativeDir ++ [.normal "registry.tsv".toList] := rfl
  rw [hsplit, EnvLayout.new_nativeDir, List.append_assoc]
  rfl

theorem plain_registryNames : Plain registryNames := by
  simp [registryNames, Plain]

theorem plain_nativeRegistryNames : Plain nativeRegistryNames := by
  simp [nativeRegistryNames, Plain]

variable {rest : Path}

/-- The registry files among the places inside `.pon`. -/
theorem EnvLayout.isRegistry_iff (h : Plain rest) :
    (EnvLayout.new root).IsRegistry ((EnvLayout.new root).ponDir ++ rest) ↔
      rest = registryNames ∨ rest = nativeRegistryNames := by
  unfold EnvLayout.IsRegistry
  rw [EnvLayout.new_registryPath, EnvLayout.new_nativeRegistryPath,
    location_append_inj _ h plain_registryNames, location_append_inj _ h plain_nativeRegistryNames]

theorem Spared.not_registry (h : Spared rest) :
    ¬ (rest = registryNames ∨ rest = nativeRegistryNames) := by
  rintro (rfl | rfl)
  · exact h.1 List.prefix_rfl
  · exact h.2 List.prefix_rfl

variable {front : Path}

theorem Spared.of_front (h : Spared rest) (hstart : front <+: rest) : Spared front :=
  ⟨fun hreg ↦ h.1 (hreg.trans hstart), fun hreg ↦ h.2 (hreg.trans hstart)⟩

theorem plain_of_front (h : Plain rest) (hstart : front <+: rest) : Plain front :=
  fun component hmem ↦ h component (hstart.subset hmem)

/-- Writing a file inside `.pon`. -/
theorem confined_file (h : Plain rest) (hne : rest ≠ []) :
    (StrictlyInside ((EnvLayout.new root).ponDir ++ rest) (EnvLayout.new root).ponDir ∧
      ¬ (EnvLayout.new root).IsRegistry ((EnvLayout.new root).ponDir ++ rest)) ↔
    ¬ (rest = registryNames ∨ rest = nativeRegistryNames) := by
  rw [EnvLayout.isRegistry_iff root h]
  exact and_iff_right (strictlyInside_append _ h hne)

/-- Creating a directory inside `.pon`. -/
theorem confined_createDir (h : Plain rest) :
    (Request.createDir ((EnvLayout.new root).ponDir ++ rest)).Confined (EnvLayout.new root) ↔
      Spared rest := by
  constructor
  · intro hconfined
    have hnot : ∀ names, Plain names → (names = registryNames ∨ names = nativeRegistryNames) →
        ¬ names <+: rest := by
      intro names hplain hnames hstart
      rcases hconfined _ ((List.prefix_append_right_inj _).mpr hstart) with hup | ⟨_, hnot⟩
      · have hlen := hup.length_le
        rw [List.length_append] at hlen
        have hlength : names.length = 2 := by
          rcases hnames with rfl | rfl <;> rfl
        omega
      · exact hnot ((EnvLayout.isRegistry_iff root hplain).mpr hnames)
    exact ⟨hnot _ plain_registryNames (Or.inl rfl), hnot _ plain_nativeRegistryNames (Or.inr rfl)⟩
  · intro hspared created hcreated
    rcases List.prefix_or_prefix_of_prefix hcreated (List.prefix_append _ rest) with hup | hdown
    · exact Or.inl hup
    · obtain ⟨names, rfl⟩ := hdown
      have hnames := (List.prefix_append_right_inj _).mp hcreated
      cases names with
      | nil => exact Or.inl (by simp)
      | cons first names =>
        have hplain := plain_of_front h hnames
        exact Or.inr ((confined_file root hplain (List.cons_ne_nil _ _)).mpr
          (hspared.of_front hnames).not_registry)

end Layout

theorem relativeNames_plain {path out : Path} (h : relativeNames path = some out) : Plain out := by
  unfold relativeNames at h
  split at h
  · cases h
    intro component hmem
    have hnormal := (List.mem_filter.mp hmem).2
    cases component with
    | normal name => exact ⟨name, rfl⟩
    | rootDir => cases hnormal
    | curDir => cases hnormal
    | parentDir => cases hnormal
  · cases h

end Pon.Package

namespace Pon.Wheel

open Package Paths Effect

/-! ## Where members are extracted to -/

theorem safeSiteRelativePath_plain {path : Text} {out : Path} (h : safeSiteRelativePath path = .ok out) :
    Plain out ∧ out ≠ [] := by
  unfold safeSiteRelativePath at h
  split at h
  · cases h
  · split at h
    · cases h
    · cases h
    · rename_i hnonempty hnames
      cases h
      exact ⟨relativeNames_plain hnames, fun hnil ↦ hnonempty hnil⟩

variable {filename : Text} {wheel : WheelFilename}

theorem WheelFilename.parse_plain (hslash : '/' ∉ filename)
    (h : WheelFilename.parse filename = .ok wheel) :
    Plain (components wheel.normalizedDistribution) := by
  have hparts : ∀ distribution version build python abi platform,
      '/' ∉ distribution →
      WheelFilename.ofParts filename distribution version build python abi platform = .ok wheel →
      Plain (components wheel.normalizedDistribution) := by
    intro distribution version build python abi platform hdistribution hok
    unfold WheelFilename.ofParts at hok
    split at hok
    · cases hok
    · cases hok
      exact components_plain not_dot_of_mem_normalize (not_slash_of_mem_normalize hdistribution)
  have hbasename : '/' ∉ (fileName (components filename)).getD filename := by
    cases hname : fileName (components filename) with
    | none => exact hslash
    | some name => exact fileName_no_slash hname
  unfold WheelFilename.parse at h
  dsimp only at h
  split at h
  · cases h
  · rename_i stem hstem
    have hstemSlash : '/' ∉ stem := by
      unfold stripSuffix at hstem
      split at hstem
      · cases hstem
        exact fun hin ↦ hbasename (List.mem_of_mem_take hin)
      · cases hstem
    split at h
    iterate 2
      · rename_i hpieces
        refine hparts _ _ _ _ _ _ (fun hin ↦ hstemSlash ?_) h
        exact mem_of_mem_splitOn '-' stem _ (by rw [hpieces]; exact List.mem_cons_self) hin
    · cases h

variable {memberName scheme : Text} {rest destination : Path}

/-- A data member whose path in the scheme is empty is a directory. -/
theorem dataMemberParts_nil (h : dataMemberParts wheel memberName = .ok (some (scheme, []))) :
    memberName.getLast? = some '/' := by
  unfold dataMemberParts at h
  split at h
  · cases h
  · rename_i rest hrest
    dsimp only at h
    split at h
    · cases h
    · rename_i scheme' rest' hsplit
      split at h
      · cases h
      · cases h
        rw [stripPrefix_eq_some.mp hrest, (splitOnce_eq_some.mp hsplit).1, ← List.append_assoc]
        exact List.getLast?_concat

variable (root : Path)

/-- A path below a directory of the environment. -/
theorem join_below {names : Path} (hnames : Plain names) (hrest : Plain rest) :
    Plain (names ++ rest) ∧ join ((EnvLayout.new root).ponDir ++ names) rest =
      (EnvLayout.new root).ponDir ++ (names ++ rest) := by
  refine ⟨plain_append.mpr ⟨hnames, hrest⟩, ?_⟩
  rw [hrest.join, List.append_assoc]

theorem plain_sitePackages : Plain [.normal "packages".toList, .normal "site-packages".toList] := by
  simp [Plain]

section

variable (hwheel : Plain (components wheel.normalizedDistribution))
include hwheel

theorem schemeDestination_plain (hrest : Plain rest)
    (h : schemeDestination (EnvLayout.new root) filename wheel scheme rest = .ok destination) :
    ∃ names, Plain (names ++ rest) ∧ destination = (EnvLayout.new root).ponDir ++ (names ++ rest) := by
  have hbelow : ∀ names : Path, Plain names →
      destination = join ((EnvLayout.new root).ponDir ++ names) rest →
      ∃ names, Plain (names ++ rest) ∧
        destination = (EnvLayout.new root).ponDir ++ (names ++ rest) := by
    rintro names hnames rfl
    exact ⟨names, join_below root hnames hrest⟩
  unfold schemeDestination at h
  split at h
  · cases h
    exact hbelow _ plain_sitePackages (by rw [EnvLayout.new_sitePackages])
  split at h
  · cases h
    exact hbelow _ (plain_singleton _) (by rw [EnvLayout.new_scriptsDir])
  split at h
  · cases h
    exact hbelow [] plain_nil (by rw [List.append_nil])
  split at h
  · cases h
    refine hbelow (.normal "include".toList :: components wheel.normalizedDistribution) ?_ ?_
    · exact plain_append.mpr ⟨plain_singleton _, hwheel⟩
    · rw [hwheel.join]
      have hinclude : join (EnvLayout.new root).ponDir (components "include".toList) =
          (EnvLayout.new root).ponDir ++ [.normal "include".toList] := rfl
      rw [hinclude, List.append_assoc]
      rfl
  · cases h

/-- Every destination is a place in `.pon`, and one of a file is not `.pon` itself. -/
theorem archiveDestination_plain {relativePath : Path}
    (hrelative : Plain relativePath)
    (h : archiveDestination (EnvLayout.new root) filename wheel memberName relativePath =
      .ok destination) :
    ∃ rest, Plain rest ∧ destination = (EnvLayout.new root).ponDir ++ rest ∧
      (rest = [] → memberName.getLast? = some '/') := by
  unfold archiveDestination at h
  obtain ⟨parts, hparts, h⟩ := Effect.ok_of_bind h
  rcases parts with _ | ⟨scheme, text⟩
  · cases h
    obtain ⟨hplain, hjoin⟩ := join_below root plain_sitePackages hrelative
    exact ⟨_, hplain, by rw [EnvLayout.new_sitePackages, hjoin], fun hnil ↦ by cases hnil⟩
  · dsimp only at h
    split at h
    · rename_i hempty
      subst hempty
      obtain ⟨names, hplain, hdestination⟩ := schemeDestination_plain root hwheel plain_nil h
      exact ⟨_, hplain, hdestination, fun _ ↦ dataMemberParts_nil hparts⟩
    · obtain ⟨rest, hrest, h⟩ := Effect.ok_of_bind h
      obtain ⟨hplainRest, hnonempty⟩ := safeSiteRelativePath_plain hrest
      obtain ⟨names, hplain, hdestination⟩ := schemeDestination_plain root hwheel hplainRest h
      refine ⟨_, hplain, hdestination, fun hnil ↦ ?_⟩
      exact (hnonempty (List.append_eq_nil_iff.mp hnil).2).elim

end

/-! ## Requests of an installation -/

section Requests

variable {σ : Type} (fs : FileSystem σ) (root : Path)

/-- The requests of a computation are confined to the environment of a project. -/
abbrev Confines {α : Type} (m : FsM σ α) : Prop := Emits (Request.Confined (EnvLayout.new root)) m

/-- The computation changes the state by confined requests. -/
abbrev Heeds {α : Type} (m : FsM σ α) : Prop :=
  Traced (fun request _ _ ↦ request.Confined (EnvLayout.new root)) m

/-- The computation changes the state by confined requests that do not write the registry. -/
abbrev Places {α : Type} (m : FsM σ α) : Prop := Traced (fun request state after ↦
  (request.Confined (EnvLayout.new root) ∧ request.IsPlacing) ∧ request.Does fs state after) m

variable {fs root}

theorem Heeds.confines {α : Type} {m : FsM σ α} (h : Heeds root m) : Confines root m :=
  h.emits fun _ _ _ ↦ id

theorem Places.heeds {α : Type} {m : FsM σ α} (h : Places fs root m) : Heeds root m :=
  h.mono fun _ _ _ ↦ (·.1.1)

/-- The path of a file below `.pon` that no registry file is at or above. -/
structure IsFile (rest : Path) : Prop where
  plain : Plain rest
  ne_nil : rest ≠ []
  spared : Spared rest

variable {rest : Path} {member : Member} {prepared : Prepared} {host : Host} {env : EnvLayout}
  {filename : Text} {state : σ}

theorem IsFile.confined (h : IsFile rest) :
    StrictlyInside ((EnvLayout.new root).ponDir ++ rest) (EnvLayout.new root).ponDir ∧
      ¬ (EnvLayout.new root).IsRegistry ((EnvLayout.new root).ponDir ++ rest) :=
  (confined_file root h.plain h.ne_nil).mpr h.spared.not_registry

theorem places_mkdirs (hplain : Plain rest) (hspared : Spared rest) :
    Places fs root (fs.mkdirs ((EnvLayout.new root).ponDir ++ rest)) :=
  Traced.perform fun _ ↦ ⟨⟨(confined_createDir root hplain).mpr hspared, trivial⟩, rfl⟩

section

variable (h : IsFile rest)
include h

theorem places_createParent :
    Places fs root (createParent fs ((EnvLayout.new root).ponDir ++ rest)) := by
  unfold createParent
  rw [h.plain.parent h.ne_nil]
  exact places_mkdirs h.plain.dropLast (h.spared.of_front (List.dropLast_prefix rest))

theorem places_put (content : Content) :
    Places fs root (fs.put ((EnvLayout.new root).ponDir ++ rest) content) :=
  Traced.perform fun _ ↦ ⟨⟨h.confined, trivial⟩, content, rfl⟩

theorem places_chmod :
    Places fs root (fs.chmod ((EnvLayout.new root).ponDir ++ rest)) :=
  Traced.perform fun _ ↦ ⟨⟨h.confined, trivial⟩, rfl⟩

theorem places_unlink :
    Places fs root (fs.unlink ((EnvLayout.new root).ponDir ++ rest)) :=
  Traced.perform fun _ ↦ ⟨⟨h.confined, trivial⟩, rfl⟩

theorem places_writeFile (content : Content) :
    Places fs root (writeFile fs ((EnvLayout.new root).ponDir ++ rest) content) :=
  (places_createParent h).bind fun _ ↦ places_put h content

end

theorem places_writeRecordedFile (host : Host) (h : IsFile rest) (recordPath : Text)
    (content : Content) (executable : Bool) :
    Places fs root (writeRecordedFile fs host ((EnvLayout.new root).ponDir ++ rest) recordPath content
      executable) := by
  unfold writeRecordedFile
  refine (places_writeFile h content).bind fun _ ↦ ?_
  cases executable with
  | false => exact .pure _
  | true => exact (places_chmod h).bind fun _ ↦ .pure _

theorem places_createDirs : Places fs root (createDirs fs (EnvLayout.new root)) := by
  have hmkdirs : ∀ name : Text, Spared [.normal name] →
      Places fs root (fs.mkdirs ((EnvLayout.new root).ponDir ++ [.normal name])) := fun name ↦
    places_mkdirs (plain_singleton name)
  unfold createDirs
  rw [EnvLayout.new_sitePackages, EnvLayout.new_packagesDir, EnvLayout.new_nativeDir,
    EnvLayout.new_scriptsDir]
  refine (places_mkdirs plain_sitePackages (by decide)).bind fun _ ↦ ?_
  refine (hmkdirs _ (by decide)).bind fun _ ↦ ?_
  exact (hmkdirs _ (by decide)).bind fun _ ↦ hmkdirs _ (by decide)

/-! ## Extraction -/

/-- The extraction gets past the member, unless the file system fails. -/
def Prepared.Accepts (host : Host) (env : EnvLayout) (prepared : Prepared) :
    Except Text Member → Prop
  | .error _ => False
  | .ok member => ∃ relativePath destination, safeSiteRelativePath member.name = .ok relativePath ∧
      archiveDestination env prepared.filename prepared.wheel member.name relativePath =
        .ok destination ∧
      (member.isDir = true ∨ ∃ entry, prepared.entry? member.name = some entry ∧
        (relativePath = prepared.recordPath ∨
          (∃ content, member.verified host prepared.filename entry = .ok content) ∧
            (relativePath ∈ prepared.generated ∨
              ∃ text, recordPathForDestination env destination = .ok text)))

/-- The extraction of the member creates its destination. -/
def Prepared.Writes (env : EnvLayout) (prepared : Prepared) (member : Member) (destination : Path) :
    Prop :=
  ∃ relativePath, safeSiteRelativePath member.name = .ok relativePath ∧
    archiveDestination env prepared.filename prepared.wheel member.name relativePath = .ok destination ∧
    (member.isDir = true ∨ (prepared.entry? member.name).isSome = true ∧
      relativePath ≠ prepared.recordPath ∧ relativePath ∉ prepared.generated)

/-- No member before which everything is accepted is extracted to a registry file or below one. -/
def Prepared.SparesRegistries (host : Host) (env : EnvLayout) (prepared : Prepared) : Prop :=
  ∀ front member back, prepared.archive = front ++ .ok member :: back →
    (∀ earlier ∈ front, prepared.Accepts host env earlier) →
    ∀ destination, prepared.Writes env member destination →
      ¬ env.registryPath <+: destination ∧ ¬ env.nativeRegistryPath <+: destination

theorem spared_iff (root : Path) (rest : Path) :
    (¬ (EnvLayout.new root).registryPath <+: (EnvLayout.new root).ponDir ++ rest ∧
      ¬ (EnvLayout.new root).nativeRegistryPath <+: (EnvLayout.new root).ponDir ++ rest) ↔
    Spared rest := by
  rw [EnvLayout.new_registryPath, EnvLayout.new_nativeRegistryPath, List.prefix_append_right_inj,
    List.prefix_append_right_inj]
  rfl

/-- What is checked before the installation. -/
structure Prepared.Checked (prepared : Prepared) : Prop where
  wheel : Plain (components prepared.wheel.normalizedDistribution)
  distInfo : Plain prepared.distInfo

section

variable (host : Host) (filename : Text) (entry : RecordEntry) (member : Member) (h : IsFile rest)
include h

theorem places_extractScriptMember :
    Places fs root (extractScriptMember fs host (EnvLayout.new root) filename entry member
      ((EnvLayout.new root).ponDir ++ rest)) := by
  unfold extractScriptMember
  refine (Traced.settled _).bind fun original ↦ ?_
  refine (places_writeFile h _).bind fun _ ↦ (places_chmod h).bind fun _ ↦ ?_
  exact (Traced.settled _).bind fun _ ↦ .pure _

theorem places_extractRegularMember :
    Places fs root (extractRegularMember fs host (EnvLayout.new root) filename entry member
      ((EnvLayout.new root).ponDir ++ rest)) := by
  unfold extractRegularMember
  refine (places_createParent h).bind fun _ ↦ (places_put h _).bind fun _ ↦ ?_
  split
  · exact .throw _
  · split
    · exact (places_unlink h).attempt.bind fun _ ↦ .throw _
    · exact (Traced.settled _).bind fun _ ↦ .pure _

end

theorem Member.isDir_of_slash (h : member.name.getLast? = some '/') : member.isDir = true := by
  simp [Member.isDir, h]

theorem places_extractMember (host : Host) (hchecked : prepared.Checked) (member : Member)
    (hspares : ∀ rest, prepared.Writes (EnvLayout.new root) member
      ((EnvLayout.new root).ponDir ++ rest) → Spared rest) :
    Places fs root (extractMember fs host (EnvLayout.new root) prepared member) := by
  unfold extractMember
  refine Traced.settled_bind fun relativePath hrelative ↦ Traced.settled_bind fun destination hdest ↦ ?_
  obtain ⟨rest, hplain, rfl, hslash⟩ := archiveDestination_plain root hchecked.wheel
    (safeSiteRelativePath_plain hrelative).1 hdest
  split
  · rename_i hdir
    have hspared := hspares rest ⟨relativePath, hrelative, hdest, Or.inl hdir⟩
    exact (places_mkdirs hplain hspared).bind fun _ ↦ .pure _
  · rename_i hfile
    have hne : rest ≠ [] := fun hnil ↦ hfile (Member.isDir_of_slash (hslash hnil))
    split
    · exact .throw _
    · rename_i entry hentry
      split
      · exact .pure _
      · rename_i hrecord
        split
        · exact (Traced.settled _).bind fun _ ↦ .pure _
        · rename_i hgenerated
          have hfile : IsFile rest := ⟨hplain, hne, hspares rest
            ⟨relativePath, hrelative, hdest, Or.inr ⟨by simp [hentry], hrecord, hgenerated⟩⟩⟩
          split
          · exact (places_extractScriptMember host _ _ _ hfile).bind fun _ ↦ .pure _
          · exact (places_extractRegularMember host _ _ _ hfile).bind fun _ ↦ .pure _

variable {record entry : RecordEntry} {destination path : Path} {found result : Found}
  {archive : Archive}

/-- A regular member that is extracted has been verified and entered into the RECORD. -/
theorem of_extractRegularMember_ok
    (h : (extractRegularMember fs host env filename record member destination state).result =
      .ok entry) :
    (∃ content, member.verified host filename record = .ok content) ∧
      ∃ text, recordPathForDestination env destination = .ok text := by
  unfold extractRegularMember at h
  obtain ⟨_, _, h⟩ := of_bind_ok h
  obtain ⟨_, _, h⟩ := of_bind_ok h
  cases hfault : member.fault with
  | some _ =>
    rw [hfault] at h
    cases h
  | none =>
    rw [hfault] at h
    dsimp only at h
    cases hverify : verifyRecordEntry filename record member.content.size
      (host.digest member.content) with
    | error _ =>
      rw [hverify] at h
      obtain ⟨_, _, hthrow⟩ := of_bind_ok h
      cases hthrow
    | ok _ =>
      rw [hverify] at h
      obtain ⟨text, htext, _⟩ := of_settled_bind_ok h
      refine ⟨⟨member.content, ?_⟩, text, htext⟩
      unfold Member.verified
      rw [hfault]
      dsimp only
      rw [hverify]
      rfl

theorem of_extractScriptMember_ok
    (h : (extractScriptMember fs host env filename record member destination state).result =
      .ok entry) :
    (∃ content, member.verified host filename record = .ok content) ∧
      ∃ text, recordPathForDestination env destination = .ok text := by
  unfold extractScriptMember at h
  obtain ⟨content, hcontent, h⟩ := of_settled_bind_ok h
  obtain ⟨_, _, h⟩ := of_bind_ok h
  obtain ⟨_, _, h⟩ := of_bind_ok h
  obtain ⟨text, htext, _⟩ := of_settled_bind_ok h
  exact ⟨⟨content, hcontent⟩, text, htext⟩

theorem accepts_of_extractMember {entry : Option RecordEntry}
    (h : (extractMember fs host env prepared member state).result = .ok entry) :
    prepared.Accepts host env (.ok member) := by
  unfold extractMember at h
  obtain ⟨relativePath, hrelative, h⟩ := of_settled_bind_ok h
  obtain ⟨destination, hdest, h⟩ := of_settled_bind_ok h
  refine ⟨relativePath, destination, hrelative, hdest, ?_⟩
  split at h
  · rename_i hdir
    exact Or.inl hdir
  · right
    cases hfound : prepared.entry? member.name with
    | none =>
      rw [hfound] at h
      cases h
    | some found =>
      rw [hfound] at h
      dsimp only at h
      refine ⟨found, rfl, ?_⟩
      split at h
      · rename_i hrecord
        exact Or.inl hrecord
      · right
        split at h
        · rename_i hgenerated
          obtain ⟨content, hcontent, _⟩ := of_settled_bind_ok h
          exact ⟨⟨content, hcontent⟩, Or.inl hgenerated⟩
        · split at h
          · obtain ⟨_, hscript, _⟩ := of_bind_ok h
            exact (of_extractScriptMember_ok hscript).imp_right Or.inr
          · obtain ⟨_, hregular, _⟩ := of_bind_ok h
            exact (of_extractRegularMember_ok hregular).imp_right Or.inr

theorem places_extractArchive (host : Host) (hchecked : prepared.Checked) (archive : Archive)
    (hspares : ∀ front member back, archive = front ++ .ok member :: back →
      (∀ earlier ∈ front, prepared.Accepts host (EnvLayout.new root) earlier) →
      ∀ rest, prepared.Writes (EnvLayout.new root) member ((EnvLayout.new root).ponDir ++ rest) →
        Spared rest) :
    Places fs root (extractArchive fs host (EnvLayout.new root) prepared archive) := by
  induction archive with
  | nil => exact .pure _
  | cons first rest ih =>
    unfold extractArchive
    refine Traced.settled_bind fun member hmember ↦ ?_
    obtain rfl : first = .ok member := by
      cases first with
      | error _ => cases hmember
      | ok other =>
        cases hmember
        rfl
    refine (places_extractMember host hchecked member (hspares [] member rest rfl
      fun _ h ↦ by cases h)).bind_of_ok fun world entry hentry ↦ ?_
    refine (ih fun front other back heq hfront ↦ ?_).bind fun _ ↦ .pure _
    refine hspares (.ok member :: front) other back (by rw [heq]; rfl) fun earlier hearlier ↦ ?_
    rcases List.mem_cons.mp hearlier with rfl | hin
    · exact accepts_of_extractMember hentry
    · exact hfront earlier hin

/-! ## Generated files -/

theorem spared_bin (rest : Path) : Spared (.normal "bin".toList :: rest) := by
  constructor <;> rintro ⟨_, h⟩ <;> exact absurd (List.cons.inj h).1 (by decide)

theorem spared_sitePackages (rest : Path) :
    Spared (.normal "packages".toList :: .normal "site-packages".toList :: rest) := by
  constructor
  · rintro ⟨_, h⟩
    exact absurd (List.cons.inj (List.cons.inj h).2).1 (by decide)
  · rintro ⟨_, h⟩
    exact absurd (List.cons.inj h).1 (by decide)

/-- A file in the packages directory. -/
theorem places_writeSite (host : Host) (hplain : Plain path) (recordPath : Text)
    (content : Content) (executable : Bool) :
    Places fs root (writeRecordedFile fs host (join (EnvLayout.new root).sitePackages path) recordPath
      content executable) := by
  obtain ⟨hall, hjoin⟩ := join_below root plain_sitePackages hplain
  rw [EnvLayout.new_sitePackages, hjoin]
  exact places_writeRecordedFile host ⟨hall, List.cons_ne_nil _ _, spared_sitePackages path⟩ _ _ _

/-- A file in the scripts directory. -/
theorem places_writeScript (host : Host) (name recordPath : Text) (content : Content)
    (executable : Bool) :
    Places fs root (writeRecordedFile fs host (join (EnvLayout.new root).scriptsDir [.normal name])
      recordPath content executable) := by
  obtain ⟨hall, hjoin⟩ := join_below root (plain_singleton "bin".toList) (plain_singleton name)
  rw [EnvLayout.new_scriptsDir, hjoin]
  exact places_writeRecordedFile host ⟨hall, List.cons_ne_nil _ _, spared_bin _⟩ _ _ _

theorem safeScriptName_components {name scriptName : Text}
    (h : safeScriptName filename name = .ok scriptName) :
    (∃ single, components scriptName = [.normal single]) ∧
      components (scriptName ++ ".py".toList) = [.normal (scriptName ++ ".py".toList)] := by
  unfold safeScriptName at h
  split at h
  · cases h
  · rename_i hsafe
    simp only [not_or] at hsafe
    split at h
    · rename_i single hsingle
      cases h
      refine ⟨⟨single, hsingle⟩, components_name ?_ ?_ ?_ ?_⟩
      · simpa using hsafe.2.1
      · simp
      · intro heq
        simpa using congrArg List.getLast? heq
      · intro heq
        simpa using congrArg List.getLast? heq
    · cases h

theorem places_writeEntryPointScripts (host : Host) (filename : Text) (entryPoint : EntryPoint) :
    Places fs root (writeEntryPointScripts fs host (EnvLayout.new root) filename entryPoint) := by
  unfold writeEntryPointScripts
  refine Traced.settled_bind fun scriptName hname ↦ ?_
  obtain ⟨⟨single, hsingle⟩, hlauncher⟩ := safeScriptName_components hname
  rw [hsingle, hlauncher]
  refine (Traced.settled _).bind fun _ ↦ (places_writeScript host _ _ _ _).bind fun _ ↦ ?_
  exact (Traced.settled _).bind fun _ ↦ (places_writeScript host _ _ _ _).bind fun _ ↦ .pure _

theorem places_writeScripts (host : Host) (filename : Text) (entryPoints : List EntryPoint)
    (entries : List RecordEntry) :
    Places fs root (writeScripts fs host (EnvLayout.new root) filename entries entryPoints) := by
  induction entryPoints generalizing entries with
  | nil => exact .pure _
  | cons entryPoint rest ih =>
    exact (places_writeEntryPointScripts host filename entryPoint).bind fun _ ↦ ih _

theorem plain_join_name (h : Plain path) (name : Text) : Plain (join path [.normal name]) := by
  rw [(plain_singleton name).join]
  exact plain_append.mpr ⟨h, plain_singleton name⟩

theorem places_writeGenerated (host : Host) (hchecked : prepared.Checked)
    (entries : List RecordEntry) (directUrl : Option (Except Error Text)) :
    Places fs root (writeGenerated fs host (EnvLayout.new root) prepared entries directUrl) := by
  unfold writeGenerated
  refine (Traced.settled _).bind fun _ ↦ ?_
  refine (places_writeSite host (plain_join_name hchecked.distInfo _) _ _ _).bind fun _ ↦ ?_
  cases directUrl with
  | none => exact .pure _
  | some json =>
    refine (Traced.settled _).bind fun _ ↦ (Traced.settled _).bind fun _ ↦ ?_
    exact (places_writeSite host (plain_join_name hchecked.distInfo _) _ _ _).bind fun _ ↦ .pure _

theorem places_writeEntryPoints (host : Host) (prepared : Prepared) (entries : List RecordEntry) :
    Places fs root (writeEntryPoints fs host (EnvLayout.new root) prepared entries) := by
  unfold writeEntryPoints
  split
  · exact .pure _
  · exact (Traced.settled _).bind fun _ ↦ places_writeScripts host _ _ _

/-! ## The registry -/

theorem heeds_readInstalledPackages :
    Heeds root (readInstalledPackages fs (EnvLayout.new root)) := by
  unfold readInstalledPackages
  refine (Traced.query _).bind fun result ↦ ?_
  split
  · exact .settled _
  · exact .pure _
  · exact .throw _

theorem heeds_writeInstalledPackages (records : List InstalledPackageRecord) :
    Heeds root (writeInstalledPackages fs (EnvLayout.new root) records) := by
  unfold writeInstalledPackages
  have hparent : parent (EnvLayout.new root).registryPath = some (EnvLayout.new root).packagesDir := by
    rw [EnvLayout.new_registryPath, plain_registryNames.parent (List.cons_ne_nil _ _),
      EnvLayout.new_packagesDir]
    rfl
  rw [hparent, EnvLayout.new_packagesDir]
  refine (places_mkdirs (plain_singleton _) (by decide)).heeds.bind fun _ ↦ ?_
  exact (Traced.settled _).bind fun content ↦ Traced.perform fun _ ↦ rfl

theorem heeds_upsertInstalledPackage (record : InstalledPackageRecord) :
    Heeds root (upsertInstalledPackage fs (EnvLayout.new root) record) :=
  heeds_readInstalledPackages.bind fun _ ↦ heeds_writeInstalledPackages _

/-! ## The installation -/

section

variable (hfound : ∀ record, found.record = some record → Plain record.1)
include hfound

theorem inspectMember_record (h : inspectMember filename found member = .ok result) :
    ∀ record, result.record = some record → Plain record.1 := by
  unfold inspectMember at h
  obtain ⟨_, _, h⟩ := Effect.ok_of_bind h
  split at h
  · obtain ⟨_, _, h⟩ := Effect.ok_of_bind h
    cases h
    exact hfound
  split at h
  · obtain ⟨_, _, h⟩ := Effect.ok_of_bind h
    obtain ⟨path, hpath, h⟩ := Effect.ok_of_bind h
    cases h
    rintro record hrecord
    cases hrecord
    exact (safeSiteRelativePath_plain hpath).1
  iterate 2
    split at h
    · obtain ⟨_, _, h⟩ := Effect.ok_of_bind h
      cases h
      exact hfound
  cases h
  exact hfound

theorem inspectMembers_record (h : inspectMembers filename found archive = .ok result) :
    ∀ record, result.record = some record → Plain record.1 := by
  induction archive generalizing found with
  | nil =>
    cases h
    exact hfound
  | cons member rest ih =>
    unfold inspectMembers at h
    obtain ⟨_, _, h⟩ := Effect.ok_of_bind h
    obtain ⟨middle, hmiddle, h⟩ := Effect.ok_of_bind h
    exact ih (inspectMember_record hfound hmiddle) h

end

theorem inspectArchive_plain {target : Target} {inspection : WheelInspection}
    (h : inspectArchive target filename archive = .ok inspection) :
    Plain inspection.recordPath := by
  unfold inspectArchive at h
  obtain ⟨found, hfound, h⟩ := Effect.ok_of_bind h
  have hrecord := inspectMembers_record (fun _ hnone ↦ by cases hnone) hfound
  split at h
  · cases h
  · obtain ⟨_, _, h⟩ := Effect.ok_of_bind h
    split at h
    · cases h
    · rename_i recordPath recordText heq
      cases h
      exact hrecord _ heq

theorem prepareWheel_checked {resolved : ResolvedRecord} {wheelPath : Text}
    {archive : Except Error Archive}
    (h : prepareWheel host resolved wheelPath archive = .ok prepared) : prepared.Checked := by
  unfold prepareWheel at h
  split at h
  · cases h
  · rename_i filename hfilename
    obtain ⟨wheel, hwheel, h⟩ := Effect.ok_of_bind h
    split at h
    · cases h
    · obtain ⟨archive, _, h⟩ := Effect.ok_of_bind h
      obtain ⟨inspection, hinspection, h⟩ := Effect.ok_of_bind h
      obtain ⟨entries, _, h⟩ := Effect.ok_of_bind h
      obtain ⟨distInfo, hdistInfo, h⟩ := Effect.ok_of_bind h
      cases h
      constructor
      · unfold validateCompatibleWheel at hwheel
        obtain ⟨parsed, hparsed, hwheel⟩ := Effect.ok_of_bind hwheel
        obtain ⟨_, _, hwheel⟩ := Effect.ok_of_bind hwheel
        cases hwheel
        exact WheelFilename.parse_plain (fileName_no_slash hfilename) hparsed
      · unfold distInfoDir at hdistInfo
        have hplain := inspectArchive_plain hinspection
        split at hdistInfo
        · rename_i dir hparent
          cases hdistInfo
          unfold Paths.parent at hparent
          split at hparent
          · cases hparent
          · cases hparent
          · cases hparent
            exact hplain.dropLast
        · cases hdistInfo

section Install

variable (fs host) (env : EnvLayout)

/-- The installation of a wheel up to its row in the registry. -/
def placeWheel (resolved : ResolvedRecord) (wheelPath : Text) (archive : Except Error Archive)
    (directUrl : Option (Except Error Text)) : FsM σ InstalledPackageRecord := do
  let prepared ← settled (prepareWheel host resolved wheelPath archive)
  createDirs fs env
  let entries ← extractArchive fs host env prepared prepared.archive
  let importNames := importNames prepared.inspection.topLevelText entries
  let entries ← writeGenerated fs host env prepared entries directUrl
  let entries ← writeEntryPoints fs host env prepared entries
  let recordPath ← settled (pathToRecordString prepared.recordPath)
  let entries := entries ++ [{ path := recordPath, hash := none, size := none }]
  writeFile fs (join env.sitePackages prepared.recordPath) (.text (writeRecord entries))
  pure
    { name := Package.normalize resolved.name, version := resolved.version, artifactKind := "wheel".toList
      importNames, recordPath := some (display prepared.recordPath) }

def report (record : InstalledPackageRecord) : InstallReport where
  packageName := record.name
  version := record.version
  artifactKind := record.artifactKind
  importNames := record.importNames

/-- Enters the row of an installer into the registry. -/
def register (record : InstalledPackageRecord) : FsM σ InstallReport := do
  upsertInstalledPackage fs env record
  pure (report record)

theorem installWheel_eq (resolved : ResolvedRecord) (wheelPath : Text)
    (archive : Except Error Archive) (directUrl : Option (Except Error Text)) :
    installWheel fs host env resolved wheelPath archive directUrl =
      placeWheel fs host env resolved wheelPath archive directUrl >>= register fs env := by
  simp only [installWheel, placeWheel, register, report, op_bind_assoc, op_pure_bind]

end Install

variable (fs) in
theorem places_placeWheel (host : Host) (resolved : ResolvedRecord) (wheelPath : Text)
    (archive : Except Error Archive) (directUrl : Option (Except Error Text))
    (hspares : ∀ prepared, prepareWheel host resolved wheelPath archive = .ok prepared →
      prepared.SparesRegistries host (EnvLayout.new root)) :
    Places fs root (placeWheel fs host (EnvLayout.new root) resolved wheelPath archive directUrl) := by
  unfold placeWheel
  refine Traced.settled_bind fun prepared hprepared ↦ ?_
  have hchecked := prepareWheel_checked hprepared
  refine places_createDirs.bind fun _ ↦ ?_
  have harchive : Places fs root
      (extractArchive fs host (EnvLayout.new root) prepared prepared.archive) := by
    apply places_extractArchive host hchecked
    intro front member back heq hfront rest hwrites
    exact (spared_iff root rest).mp (hspares prepared hprepared front member back heq hfront _ hwrites)
  refine harchive.bind fun _ ↦ ?_
  refine (places_writeGenerated host hchecked _ _).bind fun _ ↦ ?_
  refine (places_writeEntryPoints host _ _).bind fun _ ↦ ?_
  refine (Traced.settled _).bind fun _ ↦ ?_
  obtain ⟨hall, hjoin⟩ := join_below root plain_sitePackages (plain_join_name hchecked.distInfo "RECORD".toList)
  have hrecord : ∀ content, Places fs root
      (writeFile fs (join (EnvLayout.new root).sitePackages prepared.recordPath) content) := by
    intro content
    rw [EnvLayout.new_sitePackages]
    exact hjoin ▸ places_writeFile ⟨hall, List.cons_ne_nil _ _, spared_sitePackages _⟩ content
  exact (hrecord _).bind fun _ ↦ .pure _

theorem heeds_installWheel (host : Host) (resolved : ResolvedRecord) (wheelPath : Text)
    (archive : Except Error Archive) (directUrl : Option (Except Error Text))
    (hspares : ∀ prepared, prepareWheel host resolved wheelPath archive = .ok prepared →
      prepared.SparesRegistries host (EnvLayout.new root)) :
    Heeds root (installWheel fs host (EnvLayout.new root) resolved wheelPath archive directUrl) := by
  rw [installWheel_eq]
  have places := places_placeWheel fs host resolved wheelPath archive directUrl hspares
  exact places.heeds.bind fun record ↦ (heeds_upsertInstalledPackage record).bind fun _ ↦ .pure _

end Requests

/-! ## A file system that does what it is asked for -/

/-- Every change succeeds, and files have the given contents. -/
def yieldingFs (contents : Path → Except IoError Content) : FileSystem Unit where
  createDirAll _ state := (.ok (), state)
  write _ _ state := (.ok (), state)
  setExecutable _ state := (.ok (), state)
  removeFile _ state := (.ok (), state)
  removeDir _ state := (.ok (), state)
  removeDirAll _ state := (.ok (), state)
  read path _ := contents path
  symlinkMetadata _ _ := .ok .file
  isFile _ _ := true
  readDir _ _ := .error .notFound

section Yielding

variable (contents : Path → Except IoError Content) {host : Host} {root : Path} {prepared : Prepared}

theorem createParent_yields (path : Path) :
    (createParent (yieldingFs contents) path ()).result = .ok () := by
  unfold createParent
  cases parent path <;> rfl

theorem writeFile_yields (path : Path) (content : Content) :
    (writeFile (yieldingFs contents) path content ()).result = .ok () := by
  unfold writeFile
  rw [bind_ok_result (createParent_yields contents path)]
  rfl

variable {member : Member} {rest : Path}

theorem extractMember_yields {env : EnvLayout} (h : prepared.Accepts host env (.ok member)) :
    ∃ entry, (extractMember (yieldingFs contents) host env prepared member ()).result = .ok entry := by
  obtain ⟨relativePath, destination, hrelative, hdest, h⟩ := h
  unfold extractMember
  rw [settled_bind_ok hrelative, settled_bind_ok hdest]
  split
  · exact ⟨none, rfl⟩
  · rename_i hfile
    obtain ⟨entry, hentry, h⟩ := h.resolve_left hfile
    rw [hentry]
    dsimp only
    split
    · exact ⟨none, rfl⟩
    · rename_i hrecord
      obtain ⟨⟨content, hverified⟩, h⟩ := h.resolve_left hrecord
      split
      · rw [settled_bind_ok hverified]
        exact ⟨none, rfl⟩
      · rename_i hgenerated
        obtain ⟨text, htext⟩ := h.resolve_left hgenerated
        split
        · have hscript : (extractScriptMember (yieldingFs contents) host env prepared.filename entry
              member destination ()).result =
                .ok (.fromContent host.digest text (Content.rewritePythonShebang content)) := by
            unfold extractScriptMember
            rw [settled_bind_ok hverified, bind_ok_result (writeFile_yields contents _ _),
              bind_ok_result (a := ()) rfl, settled_bind_ok htext]
            rfl
          exact ⟨_, bind_ok_result hscript _⟩
        · have hfault : member.fault = none := by
            unfold Member.verified at hverified
            split at hverified
            · cases hverified
            · assumption
          have hverify : verifyRecordEntry prepared.filename entry member.content.size
              (host.digest member.content) = .ok () := by
            unfold Member.verified at hverified
            rw [hfault] at hverified
            obtain ⟨_, hok, _⟩ := Effect.ok_of_bind hverified
            exact hok
          have hregular : ∃ recorded, (extractRegularMember (yieldingFs contents) host env
              prepared.filename entry member destination ()).result = .ok recorded := by
            unfold extractRegularMember
            rw [bind_ok_result (createParent_yields contents _), bind_ok_result (a := ()) rfl, hfault]
            dsimp only
            rw [hverify]
            dsimp only
            rw [settled_bind_ok htext]
            exact ⟨_, rfl⟩
          obtain ⟨recorded, hregular⟩ := hregular
          exact ⟨_, bind_ok_result hregular _⟩

/-- A path through a registry file goes through its parent or is the file. -/
theorem not_spared_cases (h : ¬ Spared rest) :
    ¬ Spared rest.dropLast ∨ rest = registryNames ∨ rest = nativeRegistryNames := by
  have hcases : ∀ names : Path, names <+: rest → names = rest ∨ names <+: rest.dropLast := by
    rintro names ⟨more, rfl⟩
    by_cases hmore : more = []
    · exact Or.inl (by rw [hmore, List.append_nil])
    · right
      rw [List.dropLast_append_of_ne_nil hmore]
      exact List.prefix_append _ _
  unfold Spared at h
  rw [not_and_or, not_not, not_not] at h
  rcases h with hreg | hreg
  · rcases hcases _ hreg with heq | hstart
    · exact Or.inr (Or.inl heq.symm)
    · exact Or.inl fun hspared ↦ hspared.1 hstart
  · rcases hcases _ hreg with heq | hstart
    · exact Or.inr (Or.inr heq.symm)
    · exact Or.inl fun hspared ↦ hspared.2 hstart

/-- Scripts are extracted into their own directory. -/
theorem archiveDestination_scripts
    {relativePath : Path} (hscheme : dataScheme wheel memberName = some "scripts".toList)
    (h : archiveDestination (EnvLayout.new root) filename wheel memberName relativePath =
      .ok ((EnvLayout.new root).ponDir ++ rest)) : Spared rest := by
  have hbin : ∀ names : Path, Plain names →
      join (EnvLayout.new root).scriptsDir names = (EnvLayout.new root).ponDir ++ rest → Spared rest := by
    intro names hnames heq
    obtain ⟨_, hjoin⟩ := join_below root (plain_singleton "bin".toList) hnames
    rw [EnvLayout.new_scriptsDir, hjoin] at heq
    rw [← List.append_cancel_left heq]
    exact spared_bin _
  have hdestination : ∀ names : Path, schemeDestination (EnvLayout.new root) filename wheel
      "scripts".toList names = .ok (join (EnvLayout.new root).scriptsDir names) := by
    intro names
    unfold schemeDestination
    rw [if_neg (by decide), if_pos rfl]
  unfold dataScheme at hscheme
  split at hscheme
  · rename_i scheme text hparts
    cases hscheme
    unfold archiveDestination at h
    rw [hparts] at h
    dsimp only [bind, Except.bind] at h
    split at h
    · rw [hdestination] at h
      exact hbin [] plain_nil (Except.ok.inj h)
    · split at h
      · cases h
      · rename_i names hnames
        rw [hdestination] at h
        exact hbin names (safeSiteRelativePath_plain hnames).1 (Except.ok.inj h)
  · cases hscheme

/-- The extraction of a member through a registry file leaves the confines. -/
theorem extractMember_escapes
    (hwrites : prepared.Writes (EnvLayout.new root) member ((EnvLayout.new root).ponDir ++ rest))
    (hplain : Plain rest) (hspared : ¬ Spared rest) :
    ∃ request ∈ (extractMember (yieldingFs contents) host (EnvLayout.new root) prepared member ()).log,
      ¬ request.Confined (EnvLayout.new root) := by
  obtain ⟨relativePath, hrelative, hdest, hwrites⟩ := hwrites
  unfold extractMember
  rw [settled_bind_ok hrelative, settled_bind_ok hdest]
  split
  · refine ⟨_, mem_log_bind_left (List.mem_singleton.mpr rfl) _, ?_⟩
    exact fun hconfined ↦ hspared ((confined_createDir root hplain).mp hconfined)
  · rename_i hfile
    obtain ⟨hlisted, hrecord, hgenerated⟩ := hwrites.resolve_left hfile
    obtain ⟨entry, hentry⟩ := Option.isSome_iff_exists.mp hlisted
    rw [hentry]
    dsimp only
    rw [if_neg hrecord, if_neg hgenerated]
    have hne : rest ≠ [] := by
      rintro rfl
      exact hspared (by decide)
    split
    · rename_i hscheme
      exact (hspared (archiveDestination_scripts hscheme hdest)).elim
    · have hregular : ∃ request ∈ (extractRegularMember (yieldingFs contents) host (EnvLayout.new root)
          prepared.filename entry member ((EnvLayout.new root).ponDir ++ rest) ()).log,
          ¬ request.Confined (EnvLayout.new root) := by
        unfold extractRegularMember
        rcases not_spared_cases hspared with hparent | hregistry
        · refine ⟨.createDir ((EnvLayout.new root).ponDir ++ rest.dropLast), mem_log_bind_left ?_ _, ?_⟩
          · unfold createParent
            rw [hplain.parent hne]
            exact List.mem_singleton.mpr rfl
          · exact fun hconfined ↦ hparent ((confined_createDir root hplain.dropLast).mp hconfined)
        · refine ⟨.write ((EnvLayout.new root).ponDir ++ rest),
            mem_log_bind_right (createParent_yields contents _)
              (mem_log_bind_left (List.mem_singleton.mpr rfl) _), ?_⟩
          exact fun hconfined ↦ (confined_file root hplain hne).mp hconfined hregistry
      obtain ⟨request, hin, hescapes⟩ := hregular
      exact ⟨request, mem_log_bind_left hin _, hescapes⟩

theorem extractArchive_escapes {front : Archive} (back : Archive)
    (hfront : ∀ earlier ∈ front, prepared.Accepts host (EnvLayout.new root) earlier)
    (hwrites : prepared.Writes (EnvLayout.new root) member ((EnvLayout.new root).ponDir ++ rest))
    (hplain : Plain rest) (hspared : ¬ Spared rest) :
    ∃ request ∈ (extractArchive (yieldingFs contents) host (EnvLayout.new root) prepared
      (front ++ .ok member :: back) ()).log, ¬ request.Confined (EnvLayout.new root) := by
  have hopened : ∀ opened : Member,
      (Except.ok opened).mapError (zipError prepared.filename) = .ok opened := fun _ ↦ rfl
  induction front with
  | nil =>
    obtain ⟨request, hin, hescapes⟩ := extractMember_escapes contents hwrites hplain hspared
    refine ⟨request, ?_, hescapes⟩
    rw [List.nil_append]
    unfold extractArchive
    rw [settled_bind_ok (hopened member)]
    exact mem_log_bind_left hin _
  | cons first front ih =>
    obtain ⟨request, hin, hescapes⟩ := ih fun earlier h ↦ hfront earlier (List.mem_cons_of_mem _ h)
    refine ⟨request, ?_, hescapes⟩
    have hfirst := hfront first List.mem_cons_self
    cases first with
    | error _ => exact hfirst.elim
    | ok first =>
      obtain ⟨entry, hentry⟩ := extractMember_yields contents hfirst
      rw [List.cons_append]
      unfold extractArchive
      rw [settled_bind_ok (hopened first)]
      exact mem_log_bind_right hentry (mem_log_bind_left hin _)

theorem installWheel_escapes {resolved : ResolvedRecord} {wheelPath : Text}
    {archive : Except Error Archive} (directUrl : Option (Except Error Text))
    (hprepared : prepareWheel host resolved wheelPath archive = .ok prepared)
    (h : ¬ prepared.SparesRegistries host (EnvLayout.new root)) :
    ∃ request ∈ (installWheel (yieldingFs contents) host (EnvLayout.new root) resolved wheelPath
      archive directUrl ()).log, ¬ request.Confined (EnvLayout.new root) := by
  have hchecked := prepareWheel_checked hprepared
  unfold Prepared.SparesRegistries at h
  push Not at h
  obtain ⟨front, member, back, harchive, hfront, destination, hwrites, hregistry⟩ := h
  obtain ⟨relativePath, hrelative, hdest, hlisted⟩ := hwrites
  obtain ⟨rest, hplain, rfl, _⟩ := archiveDestination_plain root hchecked.wheel
    (safeSiteRelativePath_plain hrelative).1 hdest
  have hspared : ¬ Spared rest := by
    intro hspared
    obtain ⟨hnot, hnot'⟩ := (spared_iff root rest).mpr hspared
    exact hnot' (hregistry hnot)
  obtain ⟨request, hin, hescapes⟩ := extractArchive_escapes contents back
    hfront ⟨relativePath, hrelative, hdest, hlisted⟩ hplain hspared
  refine ⟨request, ?_, hescapes⟩
  unfold installWheel
  rw [settled_bind_ok hprepared]
  refine mem_log_bind_right (a := ()) rfl (mem_log_bind_left ?_ _)
  rw [harchive]
  exact hin

end Yielding

end Pon.Wheel
