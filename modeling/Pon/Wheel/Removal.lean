import Pon.Wheel.Confinement

/-!
# Where uninstallations delete

The normalization of a path cancels a `..` against the component before it even if that is a `..`, so
that it is right for a path that goes up at most once. Below the normalized environment the rows of a
RECORD reach every place but the directories of the layout, and the registry files among them.
-/

namespace Pon.Wheel

open Package Paths Effect

/-! ## Normalized paths -/

/-- A normalized path and the location that it has been made from. -/
inductive Normalizes : Path → Location → Prop
  | down (names : List Text) (ups : ℕ) (h : ups % 2 = 0) :
      Normalizes (names.map .normal) { absolute := false, ups, names }
  | up (names : List Text) (ups : ℕ) (h : ups % 2 = 1) :
      Normalizes (.parentDir :: names.map .normal) { absolute := false, ups, names }
  | root (names : List Text) :
      Normalizes (.rootDir :: names.map .normal) { absolute := true, ups := 0, names }
  | rootUp (names : List Text) :
      Normalizes (.rootDir :: .parentDir :: names.map .normal) { absolute := true, ups := 0, names }

variable {out : Path}

/-- A name is entered. -/
theorem Normalizes.normal {location : Location} (h : Normalizes out location) (name : Text) :
    Normalizes (normalizeComponent out (.normal name)) (location.enter (.normal name)) := by
  cases h with
  | down names ups h => simpa [normalizeComponent, Location.enter] using down (names ++ [name]) ups h
  | up names ups h => simpa [normalizeComponent, Location.enter] using up (names ++ [name]) ups h
  | root names => simpa [normalizeComponent, Location.enter] using root (names ++ [name])
  | rootUp names => simpa [normalizeComponent, Location.enter] using rootUp (names ++ [name])

/-- A last name is left again. -/
theorem Normalizes.leave {stem : Path} {names : List Text} {last : Text} :
    normalizeComponent (stem ++ (names ++ [last]).map .normal) .parentDir =
      stem ++ names.map .normal := by
  have hplain : Plain ((names ++ [last]).map .normal) := by
    intro component hmem
    obtain ⟨name, _, rfl⟩ := List.mem_map.mp hmem
    exact ⟨name, rfl⟩
  unfold normalizeComponent
  rw [hplain.parent (by simp)]
  simp

theorem Normalizes.parentDir {location : Location} (h : Normalizes out location) :
    Normalizes (normalizeComponent out .parentDir) (location.enter .parentDir) := by
  cases h with
  | down names ups h =>
    rcases List.eq_nil_or_concat names with rfl | ⟨names, last, rfl⟩
    · exact up [] (ups + 1) (by omega)
    · rw [List.concat_eq_append, ← List.nil_append (List.map _ _), Normalizes.leave]
      simpa [Location.enter] using down names ups h
  | up names ups h =>
    rcases List.eq_nil_or_concat names with rfl | ⟨names, last, rfl⟩
    · exact down [] (ups + 1) (by omega)
    · rw [List.concat_eq_append, ← List.singleton_append, Normalizes.leave]
      simpa [Location.enter] using up names ups h
  | root names =>
    rcases List.eq_nil_or_concat names with rfl | ⟨names, last, rfl⟩
    · exact rootUp []
    · rw [List.concat_eq_append, ← List.singleton_append, Normalizes.leave]
      simpa [Location.enter] using root names
  | rootUp names =>
    rcases List.eq_nil_or_concat names with rfl | ⟨names, last, rfl⟩
    · exact root []
    · have hstem : Component.rootDir :: .parentDir :: (names ++ [last]).map Component.normal =
          [.rootDir, .parentDir] ++ (names ++ [last]).map .normal := rfl
      rw [List.concat_eq_append, hstem, Normalizes.leave]
      simpa [Location.enter] using rootUp names

theorem Normalizes.component {location : Location} (h : Normalizes out location)
    (component : Component) :
    Normalizes (normalizeComponent out component) (location.enter component) := by
  cases component with
  | rootDir => exact root []
  | curDir => exact h
  | parentDir => exact h.parentDir
  | normal name => exact h.normal name

theorem normalizes_normalizedPath (path : Path) : Normalizes (normalizedPath path) (location path) := by
  have hall : ∀ (path out : Path) (start : Location), Normalizes out start →
      Normalizes (path.foldl normalizeComponent out) (path.foldl Location.enter start) := by
    intro path
    induction path with
    | nil => exact fun _ _ h ↦ h
    | cons component rest ih => exact fun out start h ↦ ih _ _ (h.component component)
  exact hall path [] .here (.down [] 0 rfl)

/-- The normalization forgets all but the parity of the steps up. -/
theorem location_normalizedPath (path : Path) :
    location (normalizedPath path) = { location path with ups := (location path).ups % 2 } := by
  have hplain : ∀ names : List Text, Plain (names.map Component.normal) := by
    intro names component hmem
    obtain ⟨name, _, rfl⟩ := List.mem_map.mp hmem
    exact ⟨name, rfl⟩
  have hnames : ∀ list : List Text, names (list.map Component.normal) = list := by
    intro list
    induction list with
    | nil => rfl
    | cons name rest ih => rw [List.map_cons, names_normal, ih]
  have hstem : ∀ (stem : Path) (list : List Text), location (stem ++ list.map .normal) =
      { location stem with names := (location stem).names ++ list } := by
    intro stem list
    rw [location_append_plain stem (hplain list), hnames]
  have h := normalizes_normalizedPath path
  generalize normalizedPath path = out at h
  generalize location path = place at h
  cases h with
  | down list ups h =>
    dsimp only
    rw [h]
    exact hstem [] list
  | up list ups h =>
    dsimp only
    rw [h]
    exact hstem [.parentDir] list
  | root list => exact hstem [.rootDir] list
  | rootUp list => exact hstem [.rootDir, .parentDir] list

theorem normalizedPath_append_plain (base : Path) {path : Path} (h : Plain path) :
    normalizedPath (base ++ path) = normalizedPath base ++ path := by
  unfold normalizedPath
  rw [List.foldl_append]
  generalize base.foldl normalizeComponent [] = out
  induction path generalizing out with
  | nil => simp
  | cons component rest ih =>
    obtain ⟨name, rfl⟩ := h component List.mem_cons_self
    rw [List.foldl_cons, ih fun other hother ↦ h other (List.mem_cons_of_mem _ hother)]
    simp [normalizeComponent]

/-! ## Places in the normalized environment -/

section Places

variable (root : Path)

/-- The directory `.pon` where the uninstallation looks for it. -/
def ponRoot : Path := normalizedPath (EnvLayout.new root).ponDir

theorem ponRoot_ne_nil : ponRoot root ≠ [] := by
  unfold ponRoot
  rw [EnvLayout.new_ponDir, normalizedPath_append_plain root (plain_singleton _)]
  simp

variable {rest : Path}

theorem normalized_below {path : Path} (hrest : Plain rest)
    (h : path = (EnvLayout.new root).ponDir ++ rest) :
    normalizedPath path = ponRoot root ++ rest := by
  rw [h, normalizedPath_append_plain _ hrest]
  rfl

theorem normalized_sitePackages : normalizedPath (EnvLayout.new root).sitePackages =
    ponRoot root ++ [.normal "packages".toList, .normal "site-packages".toList] :=
  normalized_below root plain_sitePackages (EnvLayout.new_sitePackages root)

/-- A place in the normalized environment is inside `.pon` if the project root goes up at most once. -/
theorem strictlyInside_iff (h : Plain rest) (hne : rest ≠ []) :
    StrictlyInside (ponRoot root ++ rest) (EnvLayout.new root).ponDir ↔ (location root).ups ≤ 1 := by
  have hups : (location (EnvLayout.new root).ponDir).ups = (location root).ups := by
    rw [EnvLayout.new_ponDir, location_append_plain root (plain_singleton _)]
  have hplace : location (ponRoot root ++ rest) = { location (EnvLayout.new root).ponDir with
      ups := (location root).ups % 2
      names := (location (EnvLayout.new root).ponDir).names ++ names rest } := by
    rw [location_append_plain _ h]
    unfold ponRoot
    rw [location_normalizedPath, hups]
  constructor
  · rintro ⟨_, _, heq⟩
    rw [hplace] at heq
    have hparity := congrArg Location.ups heq
    dsimp only at hparity
    omega
  · intro hle
    refine ⟨names rest, h.names_ne_nil hne, ?_⟩
    rw [hplace, Nat.mod_eq_of_lt (by omega), ← hups]

section

variable (hups : (location root).ups ≤ 1)
include hups

theorem location_ponRoot :
    location (ponRoot root) = location (EnvLayout.new root).ponDir := by
  have hpon : (location (EnvLayout.new root).ponDir).ups = (location root).ups := by
    rw [EnvLayout.new_ponDir, location_append_plain root (plain_singleton _)]
  unfold ponRoot
  rw [location_normalizedPath, Nat.mod_eq_of_lt (by omega)]

/-- A place is not inside another one that is as deep in the environment. -/
theorem not_strictlyInside_ponRoot {inner : Path}
    (hrest : Plain rest) (hinner : Plain inner)
    (hlength : (names inner).length ≤ (names rest).length) :
    ¬ StrictlyInside ((EnvLayout.new root).ponDir ++ inner) (ponRoot root ++ rest) := by
  rintro ⟨more, hmore, heq⟩
  rw [location_append_plain _ hinner, location_append_plain _ hrest, location_ponRoot root hups] at heq
  have hlist := congrArg (fun place ↦ place.names.length) heq
  simp only [List.length_append] at hlist
  have hpos := List.length_pos_iff.mpr hmore
  omega

/-- The registry files among the places in the normalized environment. -/
theorem isRegistry_normalized_iff (h : Plain rest) :
    (EnvLayout.new root).IsRegistry (ponRoot root ++ rest) ↔
      rest = registryNames ∨ rest = nativeRegistryNames := by
  rw [← EnvLayout.isRegistry_iff root h]
  unfold EnvLayout.IsRegistry
  rw [location_append_plain _ h, location_append_plain _ h, location_ponRoot root hups]

end

/-- The path of a RECORD entry is a place in the normalized environment. -/
theorem enterRecordMember_plain {path full : Path} (hrest : Plain rest)
    (h : enterRecordMember (ponRoot root) (ponRoot root ++ rest) path = some full) :
    ∃ rest', Plain rest' ∧ full = ponRoot root ++ rest' := by
  induction path generalizing rest with
  | nil =>
    cases h
    exact ⟨rest, hrest, rfl⟩
  | cons component path ih =>
    cases component with
    | normal name =>
      apply ih (plain_append.mpr ⟨hrest, plain_singleton name⟩)
      rw [← List.append_assoc]
      exact h
    | curDir => exact ih hrest h
    | parentDir =>
      unfold enterRecordMember at h
      cases hparent : parent (ponRoot root ++ rest) with
      | none =>
        rw [hparent] at h
        cases h
      | some shorter =>
        rw [hparent] at h
        dsimp only at h
        split at h
        · rename_i hstart
          by_cases hne : rest = []
          · -- Leaving the environment makes the path shorter than its root.
            subst hne
            rw [List.append_nil] at hparent
            unfold Paths.parent at hparent
            split at hparent
            · cases hparent
            · cases hparent
            · cases hparent
              have hlength := hstart.length_le
              rw [List.length_dropLast] at hlength
              have hpos := List.length_pos_iff.mpr (ponRoot_ne_nil root)
              omega
          · rw [hrest.parent hne] at hparent
            cases hparent
            exact ih hrest.dropLast h
        · cases h
    | rootDir => cases h

theorem recordMemberPath_plain {path label : Text} {full : Path}
    (h : recordMemberPath (EnvLayout.new root) path label = .ok full) :
    ∃ rest, Plain rest ∧ rest ≠ [] ∧ full = ponRoot root ++ rest := by
  unfold recordMemberPath at h
  split at h
  · cases h
  split at h
  · cases h
  dsimp only at h
  rw [normalized_sitePackages] at h
  split at h
  · cases h
  · rename_i found hfound
    split at h
    · cases h
    · rename_i hplace
      cases h
      obtain ⟨rest, hplain, rfl⟩ := enterRecordMember_plain root plain_sitePackages hfound
      refine ⟨rest, hplain, ?_, rfl⟩
      rintro rfl
      simp only [not_or] at hplace
      exact hplace.2.1 (List.append_nil _)

end Places

/-! ## Requests of an uninstallation -/

section Requests

variable {σ : Type} (fs : FileSystem σ) (root : Path)

/-- The computation changes the state by removals, which are confined under the condition. -/
abbrev Removes (c : Prop) {α : Type} (m : FsM σ α) : Prop := Traced (fun request state after ↦
  (c → request.Confined (EnvLayout.new root)) ∧ request.IsRemoval ∧ request.Does fs state after) m

variable {fs root} {c : Prop} {rest : Path}

theorem Removes.heeds {α : Type} {m : FsM σ α} (h : Removes fs root c m) (hc : c) : Heeds root m :=
  h.mono fun _ _ _ step ↦ step.1 hc

variable (hups : c → (location root).ups ≤ 1)
include hups

theorem removes_pruneEmptyParents {front : Path} (steps : ℕ) (hplain : Plain rest) :
    Removes fs root c (pruneEmptyParents fs (ponRoot root ++ front) steps (ponRoot root ++ rest)) := by
  induction steps generalizing rest with
  | zero => exact .pure _
  | succ steps ih =>
    unfold pruneEmptyParents
    split
    · rename_i hbelow
      have hne : rest ≠ [] := by
        rintro rfl
        rw [List.append_nil] at hbelow
        have hlength := hbelow.2.length_le
        rw [List.length_append] at hlength
        have hnil : front = [] := List.length_eq_zero_iff.mp (by omega)
        exact hbelow.1 (by rw [hnil, List.append_nil])
      have inside := fun hc ↦ (strictlyInside_iff root hplain hne).mpr (hups hc)
      refine Traced.bind (Traced.perform fun _ ↦ ⟨inside, trivial, rfl⟩) fun result ↦ ?_
      cases result with
      | ok _ =>
        dsimp only
        rw [hplain.parent hne]
        exact ih hplain.dropLast
      | error _ => exact .pure _
    · exact .pure _

theorem removes_pruneAfterRemoval (hplain : Plain rest) (hne : rest ≠ []) :
    Removes fs root c (pruneAfterRemoval fs (EnvLayout.new root) (ponRoot root ++ rest)) := by
  unfold pruneAfterRemoval
  rw [hplain.parent hne]
  have hroot : ∃ front, pruneRootForPath (EnvLayout.new root) (ponRoot root ++ rest) =
      ponRoot root ++ front := by
    unfold pruneRootForPath
    split
    · exact ⟨_, normalized_sitePackages root⟩
    split
    · exact ⟨_, normalized_below root (plain_singleton _) (EnvLayout.new_scriptsDir root)⟩
    · exact ⟨[], (List.append_nil _).symm⟩
  obtain ⟨front, hfront⟩ := hroot
  dsimp only
  rw [hfront]
  exact removes_pruneEmptyParents hups _ hplain.dropLast

variable (hplain : Plain rest) (hne : rest ≠ [])
  (hregistry : c → ¬ (rest = registryNames ∨ rest = nativeRegistryNames))
include hplain hne hregistry

/-- A place other than the registry files can be removed. -/
theorem removable (hc : c) : StrictlyInside (ponRoot root ++ rest) (EnvLayout.new root).ponDir ∧
    ¬ (EnvLayout.new root).IsRegistry (ponRoot root ++ rest) :=
  ⟨(strictlyInside_iff root hplain hne).mpr (hups hc),
    fun hreg ↦ hregistry hc ((isRegistry_normalized_iff root (hups hc) hplain).mp hreg)⟩

/-- A file or a symbolic link goes, and the empty directories above it. -/
theorem removes_unlink : Removes fs root c (do
    fs.unlink (ponRoot root ++ rest)
    pruneAfterRemoval fs (EnvLayout.new root) (ponRoot root ++ rest)) :=
  Traced.bind (Traced.perform fun _ ↦ ⟨removable hups hplain hne hregistry, trivial, rfl⟩) fun _ ↦
    removes_pruneAfterRemoval hups hplain hne

theorem removes_removeRecordEntryPath :
    Removes fs root c (removeRecordEntryPath fs (EnvLayout.new root) (ponRoot root ++ rest)) := by
  have inside := fun hc ↦ (removable hups hplain hne hregistry hc).1
  unfold removeRecordEntryPath
  refine (Traced.query _).bind fun result ↦ ?_
  rcases result with error | kind
  · cases error <;> first | exact .pure _ | exact .throw _
  · cases kind with
    | dir =>
      refine Traced.bind (Traced.perform fun _ ↦ ⟨inside, trivial, rfl⟩) fun result ↦ ?_
      rcases result with error | _
      · cases error <;> first | exact .pure _ | exact .throw _
      · exact removes_pruneAfterRemoval hups hplain hne
    | file | symlink => exact removes_unlink hups hplain hne hregistry

omit hups hplain hne hregistry

/-! ## The rows of a RECORD -/

/-- A row before which all the paths are allowed leads to the place. -/
def ReachesPath (env : EnvLayout) (entries : List RecordEntry) (full : Path) : Prop :=
  ∃ front entry back, entries = front ++ entry :: back ∧
    (∀ earlier ∈ front, ∃ place, recordMemberPath env earlier.path "RECORD entry".toList = .ok place) ∧
    recordMemberPath env entry.path "RECORD entry".toList = .ok full

/-- The uninstallation gets to the place by a row of the RECORD, unless the file system fails. -/
def Reaches (env : EnvLayout) (recordText : Text) (full : Path) : Prop :=
  ∃ label entries, parseRecord recordText label = .ok entries ∧ ReachesPath env entries full

theorem removes_removeRecordEntries (entries : List RecordEntry)
    (h : c → ∀ full, ReachesPath (EnvLayout.new root) entries full → (location root).ups ≤ 1 ∧
      full ≠ normalizedPath (EnvLayout.new root).registryPath ∧
      full ≠ normalizedPath (EnvLayout.new root).nativeRegistryPath) :
    Removes fs root c (removeRecordEntries fs (EnvLayout.new root) entries) := by
  induction entries with
  | nil => exact .pure _
  | cons entry rest ih =>
    unfold removeRecordEntries
    refine Traced.settled_bind fun full hfull ↦ ?_
    have hfirst := fun hc ↦ h hc full ⟨[], entry, rest, rfl, fun _ hmem ↦ (by cases hmem), hfull⟩
    obtain ⟨names, hplain, hne, rfl⟩ := recordMemberPath_plain root hfull
    refine (removes_removeRecordEntryPath (fun hc ↦ (hfirst hc).1) hplain hne fun hc ↦ ?_).bind
      fun _ ↦ ih fun hc other hother ↦ ?_
    · obtain ⟨_, hregistry, hnative⟩ := hfirst hc
      rintro (rfl | rfl)
      · exact hregistry (normalized_below root plain_registryNames
          (EnvLayout.new_registryPath root)).symm
      · exact hnative (normalized_below root plain_nativeRegistryNames
          (EnvLayout.new_nativeRegistryPath root)).symm
    · obtain ⟨front, last, back, rfl, hfront, hlast⟩ := hother
      refine h hc other ⟨entry :: front, last, back, rfl, fun earlier hearlier ↦ ?_, hlast⟩
      rcases List.mem_cons.mp hearlier with rfl | hin
      · exact ⟨_, hfull⟩
      · exact hfront earlier hin

theorem importRoot_components {importName name : Text} (h : importRoot importName = .ok name) :
    components name = [.normal name] ∧
      components (name ++ ".py".toList) = [.normal (name ++ ".py".toList)] := by
  unfold importRoot at h
  dsimp only at h
  split at h
  · cases h
  · rename_i hsafe
    cases h
    simp only [not_or] at hsafe
    obtain ⟨hempty, hslash, _, hdot, hdots⟩ := hsafe
    refine ⟨components_name hslash hempty hdot hdots, components_name (by simpa using hslash) ?_ ?_ ?_⟩
    · simp
    · intro heq
      simpa using congrArg List.getLast? heq
    · intro heq
      simpa using congrArg List.getLast? heq

include hups

theorem removes_removeImportRootPath (name : Text) :
    Removes fs root c (removeImportRootPath fs (EnvLayout.new root)
      (join (EnvLayout.new root).sitePackages [.normal name])) := by
  obtain ⟨hplain, hjoin⟩ := join_below root plain_sitePackages (plain_singleton name)
  rw [← EnvLayout.new_sitePackages] at hjoin
  have hregistry : c → _ := fun _ ↦ (spared_sitePackages [.normal name]).not_registry
  -- The packages have names three levels below `.pon`, the registry files two.
  have hnames : (names ([.normal "packages".toList, .normal "site-packages".toList] ++
      [.normal name])).length = 3 := rfl
  have hne := List.cons_ne_nil (Component.normal "packages".toList)
    [.normal "site-packages".toList, .normal name]
  unfold removeImportRootPath
  rw [normalized_below root hplain hjoin]
  refine (Traced.query _).bind fun result ↦ ?_
  rcases result with error | kind
  · cases error <;> first | exact .pure _ | exact .throw _
  · cases kind with
    | dir =>
      refine Traced.bind (Traced.perform fun _ ↦ ⟨fun hc ↦ ?_, trivial, rfl⟩) fun _ ↦
        removes_pruneAfterRemoval hups hplain hne
      obtain ⟨hinside, hnot⟩ := removable hups hplain hne hregistry hc
      refine ⟨hinside, hnot, ?_, ?_⟩
      · rw [EnvLayout.new_registryPath]
        exact not_strictlyInside_ponRoot root (hups hc) hplain plain_registryNames
          (by rw [hnames]; decide)
      · rw [EnvLayout.new_nativeRegistryPath]
        exact not_strictlyInside_ponRoot root (hups hc) hplain plain_nativeRegistryNames
          (by rw [hnames]; decide)
    | file | symlink => exact removes_unlink hups hplain hne hregistry

theorem removes_removeImportRoots (importNames : List Text) :
    Removes fs root c (removeImportRoots fs (EnvLayout.new root) importNames) := by
  induction importNames with
  | nil => exact .pure _
  | cons importName rest ih =>
    unfold removeImportRoots
    refine Traced.settled_bind fun name hname ↦ ?_
    obtain ⟨hmodule, hfile⟩ := importRoot_components hname
    rw [hmodule, hfile]
    refine (removes_removeImportRootPath hups _).bind fun _ ↦ ?_
    exact (removes_removeImportRootPath hups _).bind fun _ ↦ ih

end Requests

/-! ## The RECORD that is read -/

section RecordText

variable {σ : Type} (fs : FileSystem σ) (env : EnvLayout)

def readRecordText (recordPath : Text) : FsM σ Text := do
  let full ← settled (recordMemberPath env recordPath "RECORD path".toList)
  match ← fs.readText full with
  | .error error => throw (.io error)
  | .ok text => pure text

/-- The RECORD of the distribution that an uninstallation of the name is about. -/
def recordText (name : Text) : FsM σ (Option Text) := do
  let records ← readInstalledPackages fs env
  let isNamed (candidate : InstalledPackageRecord) : Bool := Package.normalize candidate.name = Package.normalize name
  match records.find? isNamed with
  | none => pure none
  | some record =>
      match record.recordPath with
      | some recordPath => do
          let text ← readRecordText fs env recordPath
          pure (some text)
      | none => do
          match ← findLegacyRecordPath fs env record with
          | some recordPath => do
              let text ← readRecordText fs env recordPath
              pure (some text)
          | none => pure none

theorem quiet_readText (path : Path) : Quiet (fs.readText path) := .query _

theorem quiet_readInstalledPackages : Quiet (readInstalledPackages fs env) := by
  unfold readInstalledPackages
  refine (Quiet.query _).bind fun result ↦ ?_
  rcases result with error | content
  · cases error <;> first | exact .pure _ | exact .throw _
  · exact .settled _

theorem quiet_readRecordText (recordPath : Text) : Quiet (readRecordText fs env recordPath) := by
  unfold readRecordText
  refine (Quiet.settled _).bind fun full ↦ (Quiet.query _).bind fun result ↦ ?_
  cases result with
  | error _ => exact .throw _
  | ok _ => exact .pure _

theorem quiet_findLegacyRecordPath (record : InstalledPackageRecord) :
    Quiet (findLegacyRecordPath fs env record) := by
  unfold findLegacyRecordPath
  refine (Quiet.query _).bind fun result ↦ ?_
  rcases result with error | entries
  · cases error <;> first | exact .pure _ | exact .throw _
  · exact (Quiet.query _).bind fun _ ↦ .pure _

end RecordText

/-! ## Uninstallations -/

section Removal

variable {σ : Type} {fs : FileSystem σ} {root : Path}

theorem mem_log_removeRecordFiles {recordPath : Text} {state : σ} {request : Request}
    (h : request ∈ (removeRecordFiles fs (EnvLayout.new root) recordPath state).log) :
    ∃ text label entries,
      (readRecordText fs (EnvLayout.new root) recordPath state).result = .ok text ∧
      parseRecord text label = .ok entries ∧
      request ∈ (removeRecordEntries fs (EnvLayout.new root) entries state).log := by
  unfold removeRecordFiles at h
  obtain ⟨full, hfull, h⟩ := (Quiet.settled _).mem_log_bind h
  obtain ⟨answer, hanswer, h⟩ := (quiet_readText fs full).mem_log_bind h
  cases answer with
  | error _ => cases h
  | ok text =>
    obtain ⟨entries, hentries, h⟩ := (Quiet.settled _).mem_log_bind h
    refine ⟨text, _, entries, ?_, hentries, h⟩
    unfold readRecordText
    rw [(Quiet.settled _).bind_ok hfull, (quiet_readText fs full).bind_ok hanswer]
    rfl

/-- The requests of an uninstallation come from the rows of the RECORD that it reads, from the import
names if there is none, or from writing the registry. -/
theorem mem_log_removeInstalledPackage {name : Text} {state : σ} {request : Request}
    (h : request ∈ (removeInstalledPackage fs (EnvLayout.new root) name state).log) :
    (∃ text label entries,
      (recordText fs (EnvLayout.new root) name state).result = .ok (some text) ∧
      parseRecord text label = .ok entries ∧
      request ∈ (removeRecordEntries fs (EnvLayout.new root) entries state).log) ∨
    (∃ importNames, (recordText fs (EnvLayout.new root) name state).result = .ok none ∧
      request ∈ (removeImportRoots fs (EnvLayout.new root) importNames state).log) ∨
    request.Confined (EnvLayout.new root) := by
  unfold removeInstalledPackage at h
  obtain ⟨records, hrecords, h⟩ := (quiet_readInstalledPackages fs _).mem_log_bind h
  unfold recordText
  rw [(quiet_readInstalledPackages fs _).bind_ok hrecords]
  dsimp only at h ⊢
  cases hfind : records.find? fun candidate ↦ decide (Package.normalize candidate.name = Package.normalize name) with
  | none =>
    rw [hfind] at h
    cases h
  | some record =>
    rw [hfind] at h
    dsimp only at h ⊢
    rcases mem_log_bind h with h | ⟨_, _, h⟩
    · unfold removeInstalledFiles at h
      have hfiles : ∀ recordPath : Text,
          request ∈ (removeRecordFiles fs (EnvLayout.new root) recordPath state).log →
          ∃ text label entries, ((do
              let text ← readRecordText fs (EnvLayout.new root) recordPath
              pure (some text) : FsM σ (Option Text)) state).result = .ok (some text) ∧
            parseRecord text label = .ok entries ∧
            request ∈ (removeRecordEntries fs (EnvLayout.new root) entries state).log := by
        intro recordPath hin
        obtain ⟨text, label, entries, htext, hentries, hin⟩ := mem_log_removeRecordFiles hin
        refine ⟨text, label, entries, ?_, hentries, hin⟩
        rw [(quiet_readRecordText fs _ _).bind_ok htext]
        rfl
      cases hpath : record.recordPath with
      | some recordPath =>
        rw [hpath] at h
        exact Or.inl (hfiles recordPath h)
      | none =>
        rw [hpath] at h
        dsimp only at h ⊢
        obtain ⟨found, hfound, h⟩ := (quiet_findLegacyRecordPath fs _ _).mem_log_bind h
        rw [(quiet_findLegacyRecordPath fs _ _).bind_ok hfound]
        cases found with
        | some recordPath => exact Or.inl (hfiles recordPath h)
        | none => exact Or.inr (Or.inl ⟨record.importNames, rfl, h⟩)
    · rcases mem_log_bind h with h | ⟨_, _, h⟩
      · exact Or.inr (Or.inr ((heeds_writeInstalledPackages _).confines _ _ h))
      · cases h

end Removal

end Pon.Wheel
