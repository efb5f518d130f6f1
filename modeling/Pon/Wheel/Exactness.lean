import Pon.Wheel.Removal

/-!
# When the requests are confined

The conditions of the two sides are necessary: on a file system that does what it is asked for, an
installation gets to the member that is extracted over a registry file, and an uninstallation gets to
every row of the RECORD that its conditions are about.
-/

namespace Pon.Wheel

open Package Paths Effect

variable {label : Text} {number : ℕ} {entries : List RecordEntry} (label' : Text)

/-- The label only appears in errors. -/
theorem parseRow_label {line : Text} {entry : RecordEntry}
    (h : parseRow label number line = .ok entry) : parseRow label' number line = .ok entry := by
  unfold parseRow at h ⊢
  cases hfields : parseCsvLine line with
  | error _ =>
    rw [hfields] at h
    cases h
  | ok fields =>
    rw [hfields] at h
    dsimp only [Except.mapError, bind, Except.bind] at h ⊢
    split
    · rename_i path hash size
      dsimp only at h
      split at h
      · cases h
      · rename_i hpath
        rw [if_neg hpath]
        split at h
        · rename_i hsize
          rw [if_pos hsize]
          exact h
        · rename_i hsize
          rw [if_neg hsize]
          cases hvalue : parseUnsigned u64Bound size with
          | none =>
            rw [hvalue] at h
            cases h
          | some value =>
            rw [hvalue] at h
            exact h
    · rename_i hlength
      split at h
      · rename_i path hash size
        exact (hlength path hash size rfl).elim
      · cases h

theorem parseRows_label {rows : List Text}
    (h : parseRows label number rows = .ok entries) :
    parseRows label' number rows = .ok entries := by
  induction rows generalizing number entries with
  | nil => exact h
  | cons row rest ih =>
    unfold parseRows at h ⊢
    split at h
    · rename_i hrow
      rw [if_pos hrow]
      exact ih h
    · rename_i hrow
      rw [if_neg hrow]
      obtain ⟨entry, hentry, h⟩ := Effect.ok_of_bind h
      obtain ⟨others, hothers, h⟩ := Effect.ok_of_bind h
      rw [parseRow_label label' hentry]
      dsimp only [bind, Except.bind]
      rw [ih hothers]
      exact h

theorem parseRecord_label {text : Text} (h : parseRecord text label = .ok entries) :
    parseRecord text label' = .ok entries :=
  parseRows_label label' h

/-- The registry has the given row, and each RECORD the given text. -/
def servingFs (row recordText : Text) : FileSystem Unit :=
  yieldingFs fun path ↦
    if path.getLast? = some (.normal "RECORD".toList) then .ok (.text recordText) else .ok (.text row)

section Serving

variable {root : Path}

theorem readInstalledPackages_serves (row recordText : Text) :
    readInstalledPackages (servingFs row recordText) (EnvLayout.new root) () =
      settled (parseRegistry row (display (EnvLayout.new root).registryPath)) () := by
  have hlast : (EnvLayout.new root).registryPath.getLast? ≠ some (.normal "RECORD".toList) := by
    rw [EnvLayout.new_registryPath]
    unfold registryNames
    rw [List.getLast?_append_of_ne_nil _ (List.cons_ne_nil _ _)]
    decide
  have hread : ((servingFs row recordText).readText (EnvLayout.new root).registryPath ()).result =
      .ok (.ok row) := by
    unfold FileSystem.readText query servingFs yieldingFs
    dsimp only
    rw [if_neg hlast]
  unfold readInstalledPackages
  exact (quiet_readText _ _).bind_ok hread _

theorem pruneEmptyParents_ok {σ : Type} {fs : FileSystem σ} (front : Path) (steps : ℕ) (path : Path)
    (state : σ) : (pruneEmptyParents fs front steps path state).result = .ok () := by
  induction steps generalizing path state with
  | zero => rfl
  | succ steps ih =>
    unfold pruneEmptyParents
    split
    · rw [bind_ok_result (a := (fs.removeDir path state).1) rfl]
      cases (fs.removeDir path state).1 with
      | error _ => rfl
      | ok _ =>
        dsimp only
        cases parent path with
        | none => rfl
        | some shorter => exact ih shorter _
    · rfl

theorem pruneAfterRemoval_ok {σ : Type} {fs : FileSystem σ} (env : EnvLayout) (path : Path) (state : σ) :
    (pruneAfterRemoval fs env path state).result = .ok () := by
  unfold pruneAfterRemoval
  cases parent path with
  | none => rfl
  | some start => exact pruneEmptyParents_ok _ _ _ _

variable (contents : Path → Except IoError Content)

theorem removeRecordEntryPath_yields (env : EnvLayout) (path : Path) :
    (removeRecordEntryPath (yieldingFs contents) env path ()).result = .ok () ∧
      .removeFile path ∈ (removeRecordEntryPath (yieldingFs contents) env path ()).log := by
  have hkind : (query (E := Request) (ε := Error)
      (fun state ↦ .ok ((yieldingFs contents).symlinkMetadata path state)) ()).result =
      .ok (.ok .file) := rfl
  have hunlink : ((yieldingFs contents).unlink path ()).result = .ok () := rfl
  unfold removeRecordEntryPath
  rw [(Quiet.query _).bind_ok hkind]
  dsimp only
  refine ⟨?_, mem_log_bind_left (List.mem_singleton.mpr rfl) _⟩
  rw [bind_ok_result hunlink]
  exact pruneAfterRemoval_ok env path _

variable {full : Path}

/-- The uninstallation gets to the places that the rows reach. -/
theorem removeRecordEntries_reaches {env : EnvLayout}
    (h : ReachesPath env entries full) :
    .removeFile full ∈ (removeRecordEntries (yieldingFs contents) env entries ()).log := by
  obtain ⟨front, entry, back, rfl, hfront, hentry⟩ := h
  induction front with
  | nil =>
    rw [List.nil_append]
    unfold removeRecordEntries
    rw [settled_bind_ok hentry]
    exact mem_log_bind_left (removeRecordEntryPath_yields contents env full).2 _
  | cons first front ih =>
    obtain ⟨place, hplace⟩ := hfront first List.mem_cons_self
    rw [List.cons_append]
    unfold removeRecordEntries
    rw [settled_bind_ok hplace]
    exact mem_log_bind_right (removeRecordEntryPath_yields contents env place).1
      (ih fun earlier hearlier ↦ hfront earlier (List.mem_cons_of_mem _ hearlier))

/-- The RECORD in the packages is accepted. -/
theorem recordMemberPath_record (label : Text) :
    recordMemberPath (EnvLayout.new root) "RECORD".toList label = .ok (ponRoot root ++
      [.normal "packages".toList, .normal "site-packages".toList, .normal "RECORD".toList]) := by
  have hcomponents : components "RECORD".toList = [.normal "RECORD".toList] := by decide
  have hpon : normalizedPath (EnvLayout.new root).ponDir = ponRoot root := rfl
  have hpackages := normalized_below root (plain_singleton _) (EnvLayout.new_packagesDir root)
  have hscripts := normalized_below root (plain_singleton _) (EnvLayout.new_scriptsDir root)
  unfold recordMemberPath
  rw [hcomponents, if_neg (by decide), if_neg (by decide), hpon, hpackages, hscripts,
    normalized_sitePackages]
  have henter : enterRecordMember (ponRoot root)
      (ponRoot root ++ [.normal "packages".toList, .normal "site-packages".toList])
      [.normal "RECORD".toList] = some (ponRoot root ++
        [.normal "packages".toList, .normal "site-packages".toList, .normal "RECORD".toList]) := by
    unfold enterRecordMember enterRecordMember
    rw [List.append_assoc]
    rfl
  dsimp only
  rw [henter]
  dsimp only
  rw [if_neg]
  simp

theorem readText_record (row recordText : Text) :
    ((servingFs row recordText).readText (ponRoot root ++ [.normal "packages".toList,
      .normal "site-packages".toList, .normal "RECORD".toList]) ()).result = .ok (.ok recordText) := by
  have hlast : (ponRoot root ++ [.normal "packages".toList, .normal "site-packages".toList,
      .normal "RECORD".toList] : Path).getLast? = some (.normal "RECORD".toList) := by
    rw [List.getLast?_append_of_ne_nil _ (List.cons_ne_nil _ _)]
    rfl
  unfold FileSystem.readText query servingFs yieldingFs
  dsimp only
  rw [if_pos hlast]

theorem readRecordText_serves (row recordText : Text) :
    (readRecordText (servingFs row recordText) (EnvLayout.new root) "RECORD".toList ()).result =
      .ok recordText := by
  unfold readRecordText
  rw [settled_bind_ok (recordMemberPath_record _),
    (quiet_readText _ _).bind_ok (readText_record row recordText)]
  rfl

/-- The row of a distribution with a RECORD. -/
def recordedRow : Text := "a\t1\twheel\t\tRECORD\n".toList

theorem parseRegistry_recordedRow (label : Text) : parseRegistry recordedRow label =
    .ok [{ name := "a".toList, version := "1".toList, artifactKind := "wheel".toList, importNames := []
           recordPath := some "RECORD".toList }] := rfl

/-- The row of a distribution without a RECORD. -/
def unrecordedRow : Text := "a\t1\twheel\tb\t\n".toList

theorem parseRegistry_unrecordedRow (label : Text) : parseRegistry unrecordedRow label =
    .ok [{ name := "a".toList, version := "1".toList, artifactKind := "wheel".toList
           importNames := ["b".toList], recordPath := none }] := rfl

theorem removeInstalledPackage_reaches {text : Text} (h : Reaches (EnvLayout.new root) text full) :
    (recordText (servingFs recordedRow text) (EnvLayout.new root) "a".toList ()).result =
      .ok (some text) ∧
    .removeFile full ∈ (removeInstalledPackage (servingFs recordedRow text) (EnvLayout.new root)
      "a".toList ()).log := by
  obtain ⟨label, entries, hentries, hreaches⟩ := h
  have hrecords := (congrArg Outcome.result (@readInstalledPackages_serves root recordedRow text)).trans
    (parseRegistry_recordedRow _)
  have htext := @readRecordText_serves root recordedRow text
  constructor
  · unfold recordText
    rw [(quiet_readInstalledPackages _ _).bind_ok hrecords]
    exact congrArg Outcome.result ((quiet_readRecordText _ _ _).bind_ok htext _)
  · unfold removeInstalledPackage
    rw [(quiet_readInstalledPackages _ _).bind_ok hrecords]
    refine mem_log_bind_left ?_ _
    unfold removeInstalledFiles removeRecordFiles
    dsimp only
    rw [settled_bind_ok (recordMemberPath_record _),
      (quiet_readText _ _).bind_ok (readText_record recordedRow text)]
    dsimp only
    rw [settled_bind_ok (parseRecord_label _ hentries)]
    exact removeRecordEntries_reaches _ hreaches

theorem removeInstalledPackage_importName :
    (recordText (servingFs unrecordedRow []) (EnvLayout.new root) "a".toList ()).result = .ok none ∧
    .removeFile (ponRoot root ++ [.normal "packages".toList, .normal "site-packages".toList,
        .normal "b".toList]) ∈
      (removeInstalledPackage (servingFs unrecordedRow []) (EnvLayout.new root) "a".toList ()).log := by
  have hrecords := (congrArg Outcome.result
    (@readInstalledPackages_serves root unrecordedRow [])).trans (parseRegistry_unrecordedRow _)
  have hplace : normalizedPath (join (EnvLayout.new root).sitePackages (components "b".toList)) =
      ponRoot root ++ [.normal "packages".toList, .normal "site-packages".toList, .normal "b".toList] := by
    have hcomponents : components "b".toList = [.normal "b".toList] := by decide
    obtain ⟨hplain, hjoin⟩ := join_below root plain_sitePackages (plain_singleton "b".toList)
    rw [hcomponents]
    apply normalized_below root hplain
    rw [EnvLayout.new_sitePackages, hjoin]
  have hroot : importRoot "b".toList = .ok "b".toList := by decide
  constructor
  · unfold recordText
    rw [(quiet_readInstalledPackages _ _).bind_ok hrecords]
    rfl
  · unfold removeInstalledPackage
    rw [(quiet_readInstalledPackages _ _).bind_ok hrecords]
    refine mem_log_bind_left ?_ _
    unfold removeInstalledFiles
    dsimp only
    rw [(quiet_findLegacyRecordPath _ _ _).bind_ok (a := none) rfl]
    dsimp only
    unfold removeImportRoots
    rw [settled_bind_ok hroot]
    refine mem_log_bind_left ?_ _
    unfold removeImportRootPath
    rw [hplace]
    exact mem_log_bind_right (a := .ok .file) rfl (mem_log_bind_left (List.mem_singleton.mpr rfl) _)

end Serving

section Exact

variable (root : Path)

/-- The uninstallations that read the given RECORD, or none, keep to their places. -/
def ConfinesRemovals (text? : Option Text) : Prop :=
  ∀ (σ : Type) (fs : FileSystem σ) (state : σ) (name : Text),
    (recordText fs (EnvLayout.new root) name state).result = .ok text? →
    ∀ request ∈ (removeInstalledPackage fs (EnvLayout.new root) name state).log,
      request.Confined (EnvLayout.new root)

/-- The rows of the RECORD reach places that may be removed. -/
def SparesRegistries (text : Text) : Prop :=
  ∀ full, Reaches (EnvLayout.new root) text full → (location root).ups ≤ 1 ∧
    full ≠ normalizedPath (EnvLayout.new root).registryPath ∧
    full ≠ normalizedPath (EnvLayout.new root).nativeRegistryPath

variable {root}

theorem ponRoot_escapes (hups : ¬ (location root).ups ≤ 1) {rest : Path} (hplain : Plain rest)
    (hne : rest ≠ []) : ¬ (Request.removeFile (ponRoot root ++ rest)).Confined (EnvLayout.new root) :=
  fun hconfined ↦ hups ((strictlyInside_iff root hplain hne).mp hconfined.1)

theorem confinesRemovals_some (text : Text) :
    ConfinesRemovals root (some text) ↔ SparesRegistries root text := by
  constructor
  · intro hall full hreaches
    obtain ⟨htext, hremoved⟩ := removeInstalledPackage_reaches hreaches
    have hconfined := hall Unit _ () _ htext _ hremoved
    obtain ⟨_, _, _, _, entry, _, _, _, hentry⟩ := hreaches
    obtain ⟨rest, hplain, hne, rfl⟩ := recordMemberPath_plain root hentry
    have hups : (location root).ups ≤ 1 := by
      by_contra hups
      exact ponRoot_escapes hups hplain hne hconfined
    have hregistry := fun h ↦ hconfined.2 ((isRegistry_normalized_iff root hups hplain).mpr h)
    refine ⟨hups, fun heq ↦ hregistry (Or.inl ?_), fun heq ↦ hregistry (Or.inr ?_)⟩
    · rw [normalized_below root plain_registryNames (EnvLayout.new_registryPath root)] at heq
      exact List.append_cancel_left heq
    · rw [normalized_below root plain_nativeRegistryNames
        (EnvLayout.new_nativeRegistryPath root)] at heq
      exact List.append_cancel_left heq
  · intro hspares σ fs state name htext request hmem
    rcases mem_log_removeInstalledPackage hmem with
      ⟨text', label, entries, htext', hentries, hin⟩ | ⟨_, hnone, _⟩ | hconfined
    · rw [htext] at htext'
      cases htext'
      refine ((removes_removeRecordEntries (c := True) entries fun _ full hfull ↦ ?_).heeds
        trivial).confines state request hin
      exact hspares full ⟨label, entries, hentries, hfull⟩
    · rw [htext] at hnone
      cases hnone
    · exact hconfined

theorem confinesRemovals_none : ConfinesRemovals root none ↔ (location root).ups ≤ 1 := by
  constructor
  · intro hall
    obtain ⟨htext, hremoved⟩ := @removeInstalledPackage_importName root
    have hconfined := hall Unit _ () _ htext _ hremoved
    by_contra hups
    exact ponRoot_escapes hups (by simp [Plain]) (List.cons_ne_nil _ _) hconfined
  · intro hups σ fs state name htext request hmem
    rcases mem_log_removeInstalledPackage hmem with
      ⟨_, _, _, htext', _⟩ | ⟨importNames, _, hin⟩ | hconfined
    · rw [htext] at htext'
      cases htext'
    · exact ((removes_removeImportRoots (fun _ ↦ hups) importNames).heeds trivial).confines state request hin
    · exact hconfined

/-- An uninstallation that finds no RECORD it can read only touches the registry. -/
theorem confines_unreadable {σ : Type} {fs : FileSystem σ} {state : σ} {name : Text} {error : Error}
    (h : (recordText fs (EnvLayout.new root) name state).result = .error error) :
    ∀ request ∈ (removeInstalledPackage fs (EnvLayout.new root) name state).log,
      request.Confined (EnvLayout.new root) := by
  intro request hmem
  rcases mem_log_removeInstalledPackage hmem with
    ⟨_, _, _, htext, _⟩ | ⟨_, hnone, _⟩ | hconfined
  · rw [h] at htext
    cases htext
  · rw [h] at hnone
    cases hnone
  · exact hconfined

variable (root)

/-- Installations keep to the places inside `.pon` outside the registry files exactly if no member leads
through a registry file. Uninstallations do so exactly if the rows of their RECORD do not lead to a
registry file, in a project that goes up from the working directory at most once. -/
theorem confined_iff :
    (∀ host resolved wheelPath archive directUrl,
      (∀ (σ : Type) (fs : FileSystem σ), Confines root
        (installWheel fs host (EnvLayout.new root) resolved wheelPath archive directUrl)) ↔
      ∀ prepared, prepareWheel host resolved wheelPath archive = .ok prepared →
        prepared.SparesRegistries host (EnvLayout.new root)) ∧
    (∀ text, ConfinesRemovals root (some text) ↔ SparesRegistries root text) ∧
    (ConfinesRemovals root none ↔ (location root).ups ≤ 1) ∧
    ∀ (σ : Type) (fs : FileSystem σ) (state : σ) name error,
      (recordText fs (EnvLayout.new root) name state).result = .error error →
      ∀ request ∈ (removeInstalledPackage fs (EnvLayout.new root) name state).log,
        request.Confined (EnvLayout.new root) := by
  refine ⟨fun host resolved wheelPath archive directUrl ↦ ⟨?_, ?_⟩, confinesRemovals_some,
    confinesRemovals_none, fun σ fs state name error h ↦ confines_unreadable h⟩
  · intro hall prepared hprepared
    by_contra hspares
    obtain ⟨request, hmem, hescapes⟩ := installWheel_escapes (fun _ ↦ .ok (.text [])) directUrl
      hprepared hspares
    exact hescapes (hall Unit _ () request hmem)
  · intro hspares σ fs
    exact (heeds_installWheel host resolved wheelPath archive directUrl hspares).confines

end Exact

/-- A member of the data scheme with the path of the registry. -/
def registryWheel : Archive :=
  [.ok { name := "w-1.dist-info/WHEEL".toList, content := .text "Root-Is-Purelib: true\n".toList
         fault := none },
    .ok { name := "w-1.data/data/packages/installed.tsv".toList, content := .text [], fault := none },
    .ok { name := "w-1.dist-info/RECORD".toList, fault := none
          content := .text ("w-1.dist-info/WHEEL,,\nw-1.data/data/packages/installed.tsv,,\n" ++
            "w-1.dist-info/RECORD,,\n").toList }]

def linuxHost : Host where
  target := { os := .linux, arch := .x86_64 }
  digest _ := []
  absolute path := path

/-- Its installation overwrites the registry, and a row of a RECORD can name the registry. -/
theorem registry_overwritten :
    (∃ request ∈ (installWheel (yieldingFs fun _ ↦ .error .notFound) linuxHost
        (EnvLayout.new [.rootDir, .normal "p".toList]) { name := "w".toList, version := "1".toList }
        "w-1-py3-none-any.whl".toList (.ok registryWheel) none ()).log,
      ¬ request.Confined (EnvLayout.new [.rootDir, .normal "p".toList])) ∧
    ∃ request ∈ (removeInstalledPackage
        (servingFs recordedRow "../../packages/installed.tsv,,\n".toList)
        (EnvLayout.new [.rootDir, .normal "p".toList]) "a".toList ()).log,
      ¬ request.Confined (EnvLayout.new [.rootDir, .normal "p".toList]) := by
  refine ⟨⟨.write (EnvLayout.new [.rootDir, .normal "p".toList]).registryPath, ?_, ?_⟩,
    .removeFile (EnvLayout.new [.rootDir, .normal "p".toList]).registryPath, ?_, ?_⟩
  · exact List.mem_of_getElem? (i := 7) (by decide +kernel)
  · exact fun hconfined ↦ hconfined.2 (Or.inl rfl)
  · exact List.mem_of_getElem? (i := 0) (by decide +kernel)
  · exact fun hconfined ↦ hconfined.2 (Or.inl rfl)

end Pon.Wheel
