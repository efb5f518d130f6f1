import Pon.Wheel.Install

/-!
# Uninstalling a distribution

The files of an installed distribution are those of its RECORD; without one the modules of its import
names are removed. Directories that become empty are pruned. The paths are normalized by their text
first.
-/

namespace Pon.Wheel

open Package Paths Effect

/-- One component of `normalized_path`. -/
def normalizeComponent (out : Path) : Component → Path
  | .rootDir => [.rootDir]
  | .curDir => out
  | .parentDir =>
      match parent out with
      | some shorter => shorter
      | none => out ++ [.parentDir]
  | .normal name => out ++ [.normal name]

def normalizedPath (path : Path) : Path :=
  path.foldl normalizeComponent []

/-- The path of a RECORD entry in the environment, component by component from the packages on. -/
def enterRecordMember (ponRoot : Path) (full : Path) : Path → Option Path
  | [] => some full
  | .normal name :: rest => enterRecordMember ponRoot (full ++ [.normal name]) rest
  | .curDir :: rest => enterRecordMember ponRoot full rest
  | .parentDir :: rest =>
      match parent full with
      | some shorter => if ponRoot <+: shorter then enterRecordMember ponRoot shorter rest else none
      | none => none
  | .rootDir :: _ => none

def recordMemberPath (env : EnvLayout) (path label : Text) : Except Error Path :=
  if IsAbsolute (components path) then .error (absolutePath label path)
  else if path = [] ∨ '\\' ∈ path then .error (unsafePath label path)
  else
    let ponRoot := normalizedPath env.ponDir
    let siteRoot := normalizedPath env.sitePackages
    match enterRecordMember ponRoot siteRoot (components path) with
    | none => .error (unsafePath label path)
    | some full =>
        if ¬ ponRoot <+: full ∨ full = ponRoot ∨ full = normalizedPath env.packagesDir ∨
          full = siteRoot ∨ full = normalizedPath env.scriptsDir then .error (unsafePath label path)
        else .ok full

section Uninstall

variable {σ : Type} (fs : FileSystem σ) (env : EnvLayout)

/-- Removes empty directories upwards, below the root. The argument bounds the number of steps. -/
def pruneEmptyParents (root : Path) : ℕ → Path → FsM σ Unit
  | 0, _ => pure ()
  | steps + 1, current =>
      if current ≠ root ∧ root <+: current then do
        match ← fs.rmdir current with
        | .ok () =>
            match parent current with
            | some shorter => pruneEmptyParents root steps shorter
            | none => pure ()
        | .error _ => pure ()
      else pure ()

def pruneRootForPath (path : Path) : Path :=
  if normalizedPath env.sitePackages <+: path then normalizedPath env.sitePackages
  else if normalizedPath env.scriptsDir <+: path then normalizedPath env.scriptsDir
  else normalizedPath env.ponDir

def pruneAfterRemoval (path : Path) : FsM σ Unit :=
  match parent path with
  | some start => pruneEmptyParents fs (pruneRootForPath env path) path.length start
  | none => pure ()

def removeRecordEntryPath (path : Path) : FsM σ Unit := do
  match ← query fun state ↦ .ok (fs.symlinkMetadata path state) with
  | .error .notFound => pure ()
  | .error error => throw (.io error)
  | .ok .dir =>
      match ← fs.rmdir path with
      | .ok () => pruneAfterRemoval fs env path
      | .error .directoryNotEmpty | .error .notFound => pure ()
      | .error error => throw (.io error)
  | .ok .file | .ok .symlink => do
      fs.unlink path
      pruneAfterRemoval fs env path

def removeRecordEntries : List RecordEntry → FsM σ Unit
  | [] => pure ()
  | entry :: rest => do
      let full ← settled (recordMemberPath env entry.path "RECORD entry".toList)
      removeRecordEntryPath fs env full
      removeRecordEntries rest

def removeRecordFiles (recordPath : Text) : FsM σ Unit := do
  let full ← settled (recordMemberPath env recordPath "RECORD path".toList)
  match ← fs.readText full with
  | .error error => throw (.io error)
  | .ok text => do
      let entries ← settled (parseRecord text (display full))
      removeRecordEntries fs env entries

def importRoot (importName : Text) : Except Error Text :=
  let root := ((importName.splitOn '.').head?).getD importName
  if root = [] ∨ '/' ∈ root ∨ '\\' ∈ root ∨ root = ['.'] ∨ root = ['.', '.'] then
    .error (.unsupportedArtifact ("unsafe import root `".toList ++ importName ++
      "` in package registry".toList))
  else .ok root

def removeImportRootPath (path : Path) : FsM σ Unit := do
  let path := normalizedPath path
  match ← query fun state ↦ .ok (fs.symlinkMetadata path state) with
  | .error .notFound => pure ()
  | .error error => throw (.io error)
  | .ok .dir => do
      fs.rmtree path
      pruneAfterRemoval fs env path
  | .ok .file | .ok .symlink => do
      fs.unlink path
      pruneAfterRemoval fs env path

def removeImportRoots : List Text → FsM σ Unit
  | [] => pure ()
  | importName :: rest => do
      let root ← settled (importRoot importName)
      removeImportRootPath fs env (join env.sitePackages (components root))
      removeImportRootPath fs env (join env.sitePackages (components (root ++ ".py".toList)))
      removeImportRoots rest

variable (record : InstalledPackageRecord)

/-- The metadata directory of a name and a version has this name. -/
def isLegacyDistInfo (fileName : Text) : Bool :=
  match (stripSuffix ".dist-info".toList fileName).bind (rsplitOnce '-') with
  | some (distName, version) =>
      decide (Package.normalize distName = Package.normalize record.name ∧ version = record.version)
  | none => false

/-- The RECORD of a distribution whose registry record does not name one. -/
def findLegacyRecordPath : FsM σ (Option Text) := do
  match ← query fun state ↦ .ok (fs.readDir env.sitePackages state) with
  | .error .notFound => pure none
  | .error error => throw (.io error)
  | .ok entries =>
      let candidates := (entries.filter fun entry ↦
        decide (entry.2 = .dir) && isLegacyDistInfo record entry.1).map fun entry ↦
          entry.1 ++ "/RECORD".toList
      let found ← query fun state ↦ .ok (candidates.filter fun relative ↦
        fs.isFile (join env.sitePackages (components relative)) state)
      pure (found.insertionSort (· ≤ ·)).head?

def removeInstalledFiles : FsM σ Unit := do
  match record.recordPath with
  | some recordPath => removeRecordFiles fs env recordPath
  | none =>
      match ← findLegacyRecordPath fs env record with
      | some recordPath => removeRecordFiles fs env recordPath
      | none => removeImportRoots fs env record.importNames

def removeInstalledPackage (name : Text) : FsM σ (Option InstalledPackageRecord) := do
  let records ← readInstalledPackages fs env
  let isNamed (candidate : InstalledPackageRecord) : Bool := Package.normalize candidate.name = Package.normalize name
  match records.find? isNamed with
  | none => pure none
  | some record => do
      removeInstalledFiles fs env record
      writeInstalledPackages fs env (records.eraseP isNamed)
      pure (some record)

end Uninstall

end Pon.Wheel
