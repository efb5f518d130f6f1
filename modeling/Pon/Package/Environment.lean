import Mathlib.Data.Char
import Mathlib.Data.List.Lex
import Mathlib.Data.List.Sort
import Pon.Package.FileSystem
import Pon.Package.Text

/-!
# Environments and the package registry

An environment keeps everything in the directory `.pon` of its project, among it the registry of the
installed packages: a table with one row of tab-separated fields for each package. A path in the
registry is kept as its text.
-/

namespace Pon.Package

open Effect Paths

structure EnvLayout where
  projectRoot : Path
  ponDir : Path
  packagesDir : Path
  sitePackages : Path
  registryPath : Path
  nativeDir : Path
  nativeRegistryPath : Path
  scriptsDir : Path
  manifestPath : Path

def EnvLayout.new (projectRoot : Path) : EnvLayout :=
  let ponDir := join projectRoot (components ".pon".toList)
  let packagesDir := join ponDir (components "packages".toList)
  let nativeDir := join ponDir (components "native".toList)
  { projectRoot
    ponDir
    packagesDir
    sitePackages := join packagesDir (components "site-packages".toList)
    registryPath := join packagesDir (components "installed.tsv".toList)
    nativeDir
    nativeRegistryPath := join nativeDir (components "registry.tsv".toList)
    scriptsDir := join ponDir (components "bin".toList)
    manifestPath := join projectRoot (components "pyproject.toml".toList) }

structure InstalledPackageRecord where
  name : Text
  version : Text
  artifactKind : Text
  importNames : List Text
  recordPath : Option Text
deriving DecidableEq

def unsafePath (label path : Text) : Error :=
  .unsupportedArtifact ("unsafe ".toList ++ label ++ " `".toList ++ path ++ ['`'])

def absolutePath (label path : Text) : Error :=
  .unsupportedArtifact (label ++ " `".toList ++ path ++ "` cannot be absolute".toList)

def isNormal : Component → Bool
  | .normal _ => true
  | _ => false

def isCurDir : Component → Bool
  | .curDir => true
  | _ => false

/-- The names of a relative path that does not go up. -/
def relativeNames (path : Path) : Option Path :=
  if path.all fun component ↦ isNormal component || isCurDir component then some (path.filter isNormal)
  else none

def registryRelativePath (path label : Text) : Except Error Path :=
  if IsAbsolute (components path) then .error (absolutePath label path)
  else if path = [] ∨ '\\' ∈ path then .error (unsafePath label path)
  else
    match relativeNames (components path) with
    | none | some [] => .error (unsafePath label path)
    | some out => .ok out

def validateRegistryField (value label : Text) : Except Error Unit :=
  if '\t' ∈ value ∨ '\n' ∈ value ∨ '\r' ∈ value then
    .error (.unsupportedArtifact (label ++ " `".toList ++ value ++
      "` cannot contain registry delimiters".toList))
  else .ok ()

def validateImportName (name : Text) : Except Error Unit := do
  validateRegistryField name "import name".toList
  if ',' ∈ name then
    throw (.unsupportedArtifact ("import name `".toList ++ name ++
      "` cannot be written to package registry".toList))

/-- The row of a record. -/
def registryRow (record : InstalledPackageRecord) : Except Error Text := do
  validateRegistryField record.name "package name".toList
  validateRegistryField record.version "package version".toList
  validateRegistryField record.artifactKind "artifact kind".toList
  record.importNames.forM validateImportName
  let recordPath := record.recordPath.getD []
  validateRegistryField recordPath "RECORD path".toList
  if recordPath ≠ [] then
    let _ ← registryRelativePath recordPath "RECORD path".toList
  pure (record.name ++ '\t' :: record.version ++ '\t' :: record.artifactKind ++ '\t' ::
    [','].intercalate record.importNames ++ '\t' :: recordPath ++ ['\n'])

def registryText (records : List InstalledPackageRecord) : Except Error Text := do
  let rows ← records.mapM registryRow
  pure rows.flatten

def parseRegistryRow (label : Text) (number : ℕ) (line : Text) : Except Error InstalledPackageRecord :=
  let names (field : Text) := if field = [] then [] else field.splitOn ','
  match line.splitOn '\t' with
  | [name, version, artifactKind, imports] =>
      .ok { name, version, artifactKind, importNames := names imports, recordPath := none }
  | [name, version, artifactKind, imports, recordPath] =>
      .ok
        { name, version, artifactKind, importNames := names imports
          recordPath := if recordPath = [] then none else some recordPath }
  | _ => .error (.unsupportedArtifact ("invalid package registry line ".toList ++ decimal number ++
      " in ".toList ++ label))

/-- The records of the rows from a line number on; blank lines are skipped. -/
def parseRegistryRows (label : Text) (number : ℕ) :
    List Text → Except Error (List InstalledPackageRecord)
  | [] => pure []
  | line :: rest =>
      if trim line = [] then parseRegistryRows label (number + 1) rest
      else do
        let record ← parseRegistryRow label number line
        let records ← parseRegistryRows label (number + 1) rest
        pure (record :: records)

def parseRegistry (text label : Text) : Except Error (List InstalledPackageRecord) :=
  parseRegistryRows label 1 (lines text)

section Registry

variable {σ : Type} (fs : FileSystem σ) (env : EnvLayout)

def createDirs : FsM σ Unit := do
  fs.mkdirs env.sitePackages
  fs.mkdirs env.packagesDir
  fs.mkdirs env.nativeDir
  fs.mkdirs env.scriptsDir

def readInstalledPackages : FsM σ (List InstalledPackageRecord) := do
  match ← fs.readText env.registryPath with
  | .ok content => settled (parseRegistry content (display env.registryPath))
  | .error .notFound => pure []
  | .error error => throw (.io error)

def writeInstalledPackages (records : List InstalledPackageRecord) : FsM σ Unit := do
  match parent env.registryPath with
  | some dir => fs.mkdirs dir
  | none => pure ()
  let content ← settled (registryText records)
  fs.putRegistry env.registryPath (.text content)

/-- Replaces the first record of the same normalized name, or adds the record. -/
def upsertRecord (record : InstalledPackageRecord) :
    List InstalledPackageRecord → List InstalledPackageRecord
  | [] => [record]
  | candidate :: rest =>
      if normalize candidate.name = normalize record.name then record :: rest
      else candidate :: upsertRecord record rest

/-- Sorted by normalized name; the sort is stable. -/
def sortRecords (records : List InstalledPackageRecord) : List InstalledPackageRecord :=
  records.insertionSort fun left right ↦ normalize left.name ≤ normalize right.name

def upsertInstalledPackage (record : InstalledPackageRecord) : FsM σ Unit := do
  let records ← readInstalledPackages fs env
  writeInstalledPackages fs env (sortRecords (upsertRecord record records))

end Registry

end Pon.Package
