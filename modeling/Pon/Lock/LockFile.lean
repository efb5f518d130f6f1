import Mathlib.Data.Char
import Mathlib.Data.List.Lex
import Mathlib.Data.List.Sort
import Mathlib.Data.Prod.Lex
import Pon.Lib.OrderedMap
import Pon.Package.Text
import Pon.Package.Toml

/-!
# Lock files

The packages of a resolution with their artifacts, written as a TOML document and read from one. The
writer leaves out what is absent and the kind of a pure package. Paths are kept as their text.
-/

namespace Pon.Lock

open Package Toml

structure LockedWheel where
  name : Text
  url : Text
  hashes : OrderedMap Text Text

structure LockedSdist where
  name : Text
  url : Text
  hashes : OrderedMap Text Text

structure LockedDirectory where
  path : Text
  editable : Bool

structure LockedVcs where
  vcsType : Text
  url : Text
  requestedRevision : Option Text
  commitId : Text

inductive LockedPackageKind where
  | pure
  | native
  | cabiRefused
deriving DecidableEq

structure LockedPackage where
  name : Text
  version : Text
  marker : Option Text
  kind : LockedPackageKind
  wheels : List LockedWheel
  sdist : Option LockedSdist
  directory : Option LockedDirectory
  vcs : Option LockedVcs

structure LockFile where
  lockVersion : Text
  createdBy : Text
  requiresPython : Text
  inputHash : Text
  packages : List LockedPackage

/-- The message of `Error::Cli`. -/
abbrev Error := Text

/-- What the packages are sorted by. -/
def LockedPackage.key (package : LockedPackage) : Lex (Text × Text) :=
  toLex (package.name, package.version)

def LockFile.withInputHash (packages : List LockedPackage) (requiresPython inputHash : Text) :
    LockFile where
  lockVersion := "1.0".toList
  createdBy := "pon 0.1.0".toList
  requiresPython
  inputHash
  packages := packages.insertionSort fun left right ↦ left.key ≤ right.key

/-- The entry of an item that may be absent. -/
def optionalEntry (key : Text) (item : Option Item) : Entries :=
  (item.map fun item ↦ (key, item)).toList

def hashesInlineTable (hashes : OrderedMap Text Text) : Item :=
  .inlineTable (hashes.entries.map fun entry ↦ (entry.1, .string entry.2))

def fileArtifactTable (name url : Text) (hashes : OrderedMap Text Text) : Entries :=
  [("name".toList, .string name), ("url".toList, .string url),
    ("hashes".toList, hashesInlineTable hashes)]

def LockedWheel.toTable (wheel : LockedWheel) : Entries :=
  fileArtifactTable wheel.name wheel.url wheel.hashes

def LockedSdist.toTable (sdist : LockedSdist) : Entries :=
  fileArtifactTable sdist.name sdist.url sdist.hashes

def LockedDirectory.toTable (directory : LockedDirectory) : Entries :=
  [("path".toList, .string directory.path), ("editable".toList, .boolean directory.editable)]

def LockedVcs.toTable (vcs : LockedVcs) : Entries :=
  [("type".toList, .string vcs.vcsType), ("url".toList, .string vcs.url)] ++
  optionalEntry "requested-revision".toList (vcs.requestedRevision.map .string) ++
  [("commit-id".toList, .string vcs.commitId)]

def LockedPackageKind.toolKind : LockedPackageKind → Option Text
  | .pure => none
  | .native => some "native".toList
  | .cabiRefused => some "cabi-refused".toList

/-- An array of tables that is not empty. -/
def arrayOfTables? (tables : List Entries) : Option Item :=
  if tables = [] then none else some (.arrayOfTables tables)

def LockedPackage.toTable (package : LockedPackage) : Entries :=
  [("name".toList, .string package.name), ("version".toList, .string package.version)] ++
  optionalEntry "marker".toList (package.marker.map .string) ++
  optionalEntry "wheels".toList (arrayOfTables? (package.wheels.map LockedWheel.toTable)) ++
  optionalEntry "sdist".toList (package.sdist.map fun sdist ↦ .table sdist.toTable) ++
  optionalEntry "directory".toList (package.directory.map fun directory ↦ .table directory.toTable) ++
  optionalEntry "vcs".toList (package.vcs.map fun vcs ↦ .table vcs.toTable) ++
  optionalEntry "tool".toList (package.kind.toolKind.map fun kind ↦
    .table [("pon".toList, .table [("kind".toList, .string kind)])])

def LockFile.toDocument (lock : LockFile) : Item :=
  .table ([("lock-version".toList, .string lock.lockVersion),
      ("created-by".toList, .string lock.createdBy),
      ("requires-python".toList, .string lock.requiresPython),
      ("tool".toList, .table [("pon".toList, .table [("input-hash".toList, .string lock.inputHash)])])] ++
    optionalEntry "packages".toList (arrayOfTables? (lock.packages.map LockedPackage.toTable)))

variable (table : Entries)

def optionalString (key label : Text) : Except Error (Option Text) :=
  match Entries.get? key table with
  | none => .ok none
  | some item =>
      match item.asString? with
      | some text => .ok (some text)
      | none => .error (label ++ " must be a string".toList)

def requiredString (key message : Text) : Except Error Text := do
  match ← optionalString table key message with
  | some text => pure text
  | none => throw message

def optionalBool (key label : Text) : Except Error (Option Bool) :=
  match Entries.get? key table with
  | none => .ok none
  | some item =>
      match item.asBool? with
      | some value => .ok (some value)
      | none => .error (label ++ " must be a boolean".toList)

def parseHash (entry : Text × Item) : Except Error (Text × Text) :=
  match entry.2.asString? with
  | some digest => .ok (entry.1, digest)
  | none => .error ("pon.lock hash `".toList ++ entry.1 ++ "` must be a string".toList)

def parseHashes : Except Error (OrderedMap Text Text) :=
  match Entries.get? "hashes".toList table with
  | none => .ok .empty
  | some item =>
      match item.entries? with
      | none => .error "pon.lock hashes must be a table".toList
      | some entries => do
          let hashes ← entries.mapM parseHash
          pure (OrderedMap.empty.insertAll hashes)

def LockedWheel.fromTable : Except Error LockedWheel := do
  let name ← requiredString table "name".toList "pon.lock wheel missing name".toList
  let url ← requiredString table "url".toList "pon.lock wheel missing url".toList
  let hashes ← parseHashes table
  pure { name, url, hashes }

def LockedSdist.fromTable : Except Error LockedSdist := do
  let name ← requiredString table "name".toList "pon.lock sdist missing name".toList
  let url ← requiredString table "url".toList "pon.lock sdist missing url".toList
  let hashes ← parseHashes table
  pure { name, url, hashes }

def LockedDirectory.fromTable : Except Error LockedDirectory := do
  let path ← requiredString table "path".toList "pon.lock directory missing path".toList
  let editable ← optionalBool table "editable".toList "pon.lock directory editable".toList
  pure { path, editable := editable.getD false }

def LockedVcs.fromTable : Except Error LockedVcs := do
  let vcsType ← requiredString table "type".toList "pon.lock VCS entry missing type".toList
  let url ← requiredString table "url".toList "pon.lock VCS entry missing url".toList
  let requestedRevision ← optionalString table "requested-revision".toList
    "pon.lock VCS requested-revision".toList
  let commitId ← requiredString table "commit-id".toList "pon.lock VCS entry missing commit-id".toList
  pure { vcsType, url, requestedRevision, commitId }

def parseKind (value : Text) : Except Error LockedPackageKind :=
  if value = "native".toList then .ok .native
  else if value = "cabi-refused".toList then .ok .cabiRefused
  else if value = "pure".toList then .ok .pure
  else .error ("unsupported pon package kind `".toList ++ value ++ ['`'])

/-- The kind of a package, pure if its table has none. -/
def parsePackageKind : Except Error LockedPackageKind :=
  match ((Item.table table).itemAt ["tool".toList, "pon".toList]).bind Item.entries? with
  | none => .ok .pure
  | some toolPon => do
      match ← optionalString toolPon "kind".toList "pon.lock package kind".toList with
      | none => pure .pure
      | some kind => parseKind kind

def parseWheels : Except Error (List LockedWheel) :=
  match Entries.get? "wheels".toList table with
  | none => .ok []
  | some item =>
      match item.asArrayOfTables? with
      | some wheels => wheels.mapM LockedWheel.fromTable
      | none => .error "pon.lock package wheels must be an array of tables".toList

/-- What is read from a table that may be absent. -/
def parseOptionalTable {α : Type} (key label : Text)
    (fromTable : Entries → Except Error α) : Except Error (Option α) :=
  match Entries.get? key table with
  | none => .ok none
  | some item =>
      match item.entries? with
      | some entries => (fromTable entries).map some
      | none => .error (label ++ " must be a table".toList)

def parsePackage : Except Error LockedPackage := do
  let name ← requiredString table "name".toList "pon.lock package missing name".toList
  let version ← requiredString table "version".toList "pon.lock package missing version".toList
  let marker ← optionalString table "marker".toList "pon.lock package marker".toList
  let kind ← parsePackageKind table
  let wheels ← parseWheels table
  let sdist ← parseOptionalTable table "sdist".toList "pon.lock package sdist".toList LockedSdist.fromTable
  let directory ← parseOptionalTable table "directory".toList "pon.lock package directory".toList
    LockedDirectory.fromTable
  let vcs ← parseOptionalTable table "vcs".toList "pon.lock package vcs".toList LockedVcs.fromTable
  pure { name, version, marker, kind, wheels, sdist, directory, vcs }

def parsePackages (root : Entries) : Except Error (List LockedPackage) :=
  match Entries.get? "packages".toList root with
  | none => .ok []
  | some item =>
      match item.asArrayOfTables? with
      | some packages => packages.mapM parsePackage
      | none => .error "pon.lock packages must be an array of tables".toList

def majorVersion (version : Text) : Text :=
  ((splitOnce '.' version).map Prod.fst).getD version

def validateLockVersion (version : Text) : Except Error Unit :=
  if majorVersion version = "1".toList then .ok ()
  else .error ("unsupported pon.lock lock-version `".toList ++ version ++
    "`; expected major version 1".toList)

/-- What a document says; its root is a table. -/
def parseDocument (doc : Item) : Except Error LockFile := do
  let root := doc.ensureTable
  let lockVersion ← requiredString root "lock-version".toList "pon.lock missing lock-version".toList
  validateLockVersion lockVersion
  let createdBy ← requiredString root "created-by".toList "pon.lock missing created-by".toList
  let requiresPython ← requiredString root "requires-python".toList
    "pon.lock missing requires-python".toList
  let inputHash ←
    match (doc.itemAt ["tool".toList, "pon".toList]).bind Item.entries? with
    | none => .error "pon.lock missing [tool.pon]".toList
    | some toolPon =>
        requiredString toolPon "input-hash".toList "pon.lock missing [tool.pon].input-hash".toList
  let packages ← parsePackages root
  pure { lockVersion, createdBy, requiresPython, inputHash, packages }

/-- `parse_lock`, with the parser of TOML documents. -/
def parseLock (parse : Text → Except Text Item) (input : Text) : Except Error LockFile := do
  let doc ← (parse input).mapError fun error ↦ "invalid pon.lock TOML: ".toList ++ error
  parseDocument doc

end Pon.Lock
