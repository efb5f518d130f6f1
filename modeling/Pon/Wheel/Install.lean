import Pon.Package.Environment
import Pon.Wheel.Scripts

/-!
# Installing a wheel

A wheel is checked, extracted member by member into one of the directories of its environment, given
its generated files and scripts, and entered into the registry. Everything up to the extraction only
reads the archive. An archive that cannot be opened, a member that cannot be opened and a member whose
reading fails are data of the archive here.
-/

namespace Pon.Wheel

open Package Paths Effect

/-- A member of an archive: what can be read of it, and the fault that reading it ends with. -/
structure Member where
  name : Text
  content : Content
  fault : Option IoError

def Member.isDir (member : Member) : Bool :=
  member.name.getLast? = some '/' || member.name.getLast? = some '\\'

abbrev Archive := List (Except Text Member)

/-- What the program knows about its host. -/
structure Host where
  target : Target
  digest : Digest
  /-- `std::path::absolute`. -/
  absolute : Path → Path

structure ResolvedRecord where
  name : Text
  version : Text

structure InstallReport where
  packageName : Text
  version : Text
  artifactKind : Text
  importNames : List Text

def zipError (filename message : Text) : Error :=
  .unsupportedArtifact ("invalid wheel archive `".toList ++ filename ++ "`: ".toList ++ message)

def wheelError (filename : Text) (message : Text) : Error :=
  .unsupportedArtifact ("wheel `".toList ++ filename ++ "` ".toList ++ message)

def unsafeMemberPath (path : Text) : Error :=
  .unsupportedArtifact ("unsafe wheel member path `".toList ++ path ++ ['`'])

/-- A member path becomes a path of names. -/
def safeSiteRelativePath (path : Text) : Except Error Path :=
  if path = [] ∨ '\\' ∈ path ∨ IsAbsolute (components path) then .error (unsafeMemberPath path)
  else
    match relativeNames (components path) with
    | none | some [] => .error (unsafeMemberPath path)
    | some out => .ok out

/-- The scheme of a member in the data directory of the wheel, and its path in the scheme. -/
def dataMemberParts (wheel : WheelFilename) (memberName : Text) : Except Error (Option (Text × Text)) :=
  match stripPrefix (wheel.distribution ++ '-' :: wheel.version ++ ".data/".toList) memberName with
  | none => .ok none
  | some rest =>
      let malformed : Error := .unsupportedArtifact ("wheel member `".toList ++ memberName ++
        "` has a malformed .data path".toList)
      match splitOnce '/' rest with
      | none => .error malformed
      | some (scheme, rest) => if scheme = [] then .error malformed else .ok (some (scheme, rest))

def dataScheme (wheel : WheelFilename) (memberName : Text) : Option Text :=
  match dataMemberParts wheel memberName with
  | .ok (some (scheme, _)) => some scheme
  | _ => none

/-- The place of a path in a scheme. -/
def schemeDestination (env : EnvLayout) (filename : Text) (wheel : WheelFilename) (scheme : Text)
    (rest : Path) : Except Error Path :=
  if scheme = "purelib".toList ∨ scheme = "platlib".toList then .ok (join env.sitePackages rest)
  else if scheme = "scripts".toList then .ok (join env.scriptsDir rest)
  else if scheme = "data".toList then .ok (join env.ponDir rest)
  else if scheme = "headers".toList then
    .ok (join (join (join env.ponDir (components "include".toList))
      (components wheel.normalizedDistribution)) rest)
  else .error (wheelError filename ("has unsupported data scheme `".toList ++ scheme ++ ['`']))

def archiveDestination (env : EnvLayout) (filename : Text) (wheel : WheelFilename) (memberName : Text)
    (relativePath : Path) : Except Error Path := do
  match ← dataMemberParts wheel memberName with
  | none => pure (join env.sitePackages relativePath)
  | some (scheme, rest) =>
      let rest ← if rest = [] then .ok [] else safeSiteRelativePath rest
      schemeDestination env filename wheel scheme rest

/-- The text of a relative path in a RECORD. -/
def pathToRecordString (path : Path) : Except Error Text :=
  if IsAbsolute path then
    .error (.unsupportedArtifact ("RECORD path `".toList ++ display path ++ "` is not relative".toList))
  else
    match path.filter fun component ↦ !isCurDir component with
    | [] => .error (.unsupportedArtifact "RECORD path is empty".toList)
    | parts => .ok (['/'].intercalate (parts.map Component.text))

def recordPathForDestination (env : EnvLayout) (destination : Path) : Except Error Text :=
  match Paths.stripPrefix env.sitePackages destination with
  | some relative => pathToRecordString relative
  | none =>
      match Paths.stripPrefix env.ponDir destination with
      | some relative => pathToRecordString (.parentDir :: .parentDir :: relative)
      | none => .error (.unsupportedArtifact ("installed wheel path `".toList ++ display destination ++
          "` is outside the pon environment".toList))

structure WheelInspection where
  recordPath : Path
  recordText : Text
  topLevelText : Option Text
  entryPointsText : Option Text

/-- What has been found in the members so far. -/
structure Found where
  wheelMetadata : Option Text
  record : Option (Path × Text)
  topLevelText : Option Text
  entryPointsText : Option Text

def Member.readText (member : Member) : Except Error Text :=
  match member.fault, member.content with
  | some fault, _ => .error (.io fault)
  | none, .text text => .ok text
  | none, .binary _ => .error (.io .other)

def inspectMember (filename : Text) (found : Found) (member : Member) : Except Error Found := do
  (classifyArchiveMember member.name).check filename
  if ".dist-info/WHEEL".toList.isSuffixOf member.name then
    let text ← member.readText
    pure { found with wheelMetadata := some text }
  else if ".dist-info/RECORD".toList.isSuffixOf member.name then
    let text ← member.readText
    let path ← safeSiteRelativePath member.name
    pure { found with record := some (path, text) }
  else if ".dist-info/top_level.txt".toList.isSuffixOf member.name then
    let text ← member.readText
    pure { found with topLevelText := some text }
  else if ".dist-info/entry_points.txt".toList.isSuffixOf member.name then
    let text ← member.readText
    pure { found with entryPointsText := some text }
  else pure found

def inspectMembers (filename : Text) (found : Found) : Archive → Except Error Found
  | [] => pure found
  | member :: rest => do
      let member ← member.mapError (zipError filename)
      let found ← inspectMember filename found member
      inspectMembers filename found rest

def inspectArchive (target : Target) (filename : Text) (archive : Archive) :
    Except Error WheelInspection := do
  let ponNative :=
    match WheelFilename.parse filename with
    | .ok wheel => wheel.tags.any (ponNativeTag target)
    | .error _ => false
  let found ← inspectMembers filename
    { wheelMetadata := none, record := none, topLevelText := none, entryPointsText := none } archive
  match found.wheelMetadata with
  | none => throw (wheelError filename "does not contain a .dist-info/WHEEL member".toList)
  | some metadata =>
      (classifyRootIsPurelib metadata ponNative).check filename
      match found.record with
      | none => throw (wheelError filename "does not contain a .dist-info/RECORD member".toList)
      | some (recordPath, recordText) =>
          pure
            { recordPath, recordText, topLevelText := found.topLevelText
              entryPointsText := found.entryPointsText }

def distInfoDir (recordPath : Path) (filename : Text) : Except Error Path :=
  match parent recordPath with
  | some dir => .ok dir
  | none => .error (wheelError filename ("RECORD path `".toList ++ display recordPath ++
      "` is not inside a .dist-info directory".toList))

/-- What is known about a wheel before anything is installed. -/
structure Prepared where
  filename : Text
  wheel : WheelFilename
  archive : Archive
  inspection : WheelInspection
  entries : List RecordEntry
  distInfo : Path

/-- The checks before the installation. -/
def prepareWheel (host : Host) (resolved : ResolvedRecord) (wheelPath : Text)
    (archive : Except Error Archive) : Except Error Prepared := do
  match fileName (components wheelPath) with
  | none => throw (.invalidWheelFilename wheelPath)
  | some filename =>
      let wheel ← validateCompatibleWheel host.target filename
      if wheel.normalizedDistribution ≠ Package.normalize resolved.name then
        throw (wheelError filename ("distribution `".toList ++ wheel.normalizedDistribution ++
          "` does not match resolved package `".toList ++ Package.normalize resolved.name ++ ['`']))
      else
        let archive ← archive
        let inspection ← inspectArchive host.target filename archive
        let entries ← parseRecord inspection.recordText (display inspection.recordPath)
        let distInfo ← distInfoDir inspection.recordPath filename
        pure { filename, wheel, archive, inspection, entries, distInfo }

def verifyRecordEntry (filename : Text) (entry : RecordEntry) (copied : ℕ) (digest : Text) :
    Except Error Unit :=
  let member := "member `".toList ++ entry.path ++ ['`', ' ']
  match entry.size.filter fun size ↦ decide (copied ≠ size) with
  | some size => .error (wheelError filename (member ++ "failed RECORD size verification: expected ".toList ++
      decimal size ++ ", got ".toList ++ decimal copied))
  | none =>
      match entry.hash with
      | none => .ok ()
      | some hash =>
          match splitOnce '=' hash with
          | none => .error (wheelError filename (member ++ "has invalid RECORD hash `".toList ++ hash ++ ['`']))
          | some (algorithm, expected) =>
              if algorithm ≠ "sha256".toList then
                .error (wheelError filename (member ++ "uses unsupported RECORD hash algorithm `".toList ++
                  algorithm ++ ['`']))
              else if digest ≠ expected then
                .error (wheelError filename (member ++ "failed RECORD hash verification".toList))
              else .ok ()

/-- The content of a member, once it has been read to its end and verified. -/
def Member.verified (member : Member) (host : Host) (filename : Text) (entry : RecordEntry) :
    Except Error Content :=
  match member.fault with
  | some fault => .error (.io fault)
  | none => do
      verifyRecordEntry filename entry member.content.size (host.digest member.content)
      pure member.content

def Content.rewritePythonShebang : Content → Content
  | .text text =>
      if "#!python".toList.isPrefixOf text then
        .text ("#!/usr/bin/env -S pon run".toList ++ text.dropWhile (· ≠ '\n'))
      else .text text
  | .binary bytes =>
      if (Text.bytes "#!python".toList).isPrefixOf bytes then
        .binary (Text.bytes "#!/usr/bin/env -S pon run".toList ++ bytes.dropWhile (· ≠ 10))
      else .binary bytes

section Install

variable {σ : Type} (fs : FileSystem σ) (host : Host) (env : EnvLayout)

/-- Creates the directory of a path. -/
def createParent (path : Path) : FsM σ Unit :=
  match parent path with
  | some dir => fs.mkdirs dir
  | none => pure ()

def writeFile (path : Path) (content : Content) : FsM σ Unit := do
  createParent fs path
  fs.put path content

def writeRecordedFile (path : Path) (recordPath : Text) (content : Content) (executable : Bool) :
    FsM σ RecordEntry := do
  writeFile fs path content
  if executable then fs.chmod path
  pure (.fromContent host.digest recordPath content)

/-- What has been copied stays until the verification fails; a read that fails leaves it behind. -/
def extractRegularMember (filename : Text) (entry : RecordEntry) (member : Member) (destination : Path) :
    FsM σ RecordEntry := do
  createParent fs destination
  fs.put destination member.content
  match member.fault with
  | some fault => throw (.io fault)
  | none =>
      match verifyRecordEntry filename entry member.content.size (host.digest member.content) with
      | .error error => do
          attempt (fs.unlink destination)
          throw error
      | .ok () => do
          let recordPath ← settled (recordPathForDestination env destination)
          pure (recordEntryFromDigest recordPath member.content.size (host.digest member.content))

def extractScriptMember (filename : Text) (entry : RecordEntry) (member : Member) (destination : Path) :
    FsM σ RecordEntry := do
  let original ← settled (member.verified host filename entry)
  let installed := Content.rewritePythonShebang original
  writeFile fs destination installed
  fs.chmod destination
  let recordPath ← settled (recordPathForDestination env destination)
  pure (.fromContent host.digest recordPath installed)

/-- The entry of a member in the RECORD; a later row for the same path hides an earlier one. -/
def Prepared.entry? (prepared : Prepared) (memberName : Text) : Option RecordEntry :=
  prepared.entries.reverse.find? fun entry ↦ entry.path = memberName

def Prepared.recordPath (prepared : Prepared) : Path :=
  join prepared.distInfo (components "RECORD".toList)

/-- The members of the archive that the installation generates itself. -/
def Prepared.generated (prepared : Prepared) : List Path :=
  [join prepared.distInfo (components "INSTALLER".toList),
    join prepared.distInfo (components "direct_url.json".toList)]

def extractMember (prepared : Prepared) (member : Member) : FsM σ (Option RecordEntry) := do
  let relativePath ← settled (safeSiteRelativePath member.name)
  let destination ← settled
    (archiveDestination env prepared.filename prepared.wheel member.name relativePath)
  if member.isDir then
    fs.mkdirs destination
    pure none
  else
    match prepared.entry? member.name with
    | none => throw (wheelError prepared.filename ("member `".toList ++ member.name ++
        "` is missing from RECORD".toList))
    | some entry =>
        if relativePath = prepared.recordPath then pure none
        else if relativePath ∈ prepared.generated then
          let _ ← settled (member.verified host prepared.filename entry)
          pure none
        else if dataScheme prepared.wheel member.name = some "scripts".toList then
          let entry ← extractScriptMember fs host env prepared.filename entry member destination
          pure (some entry)
        else
          let entry ← extractRegularMember fs host env prepared.filename entry member destination
          pure (some entry)

def extractArchive (prepared : Prepared) : Archive → FsM σ (List RecordEntry)
  | [] => pure []
  | member :: rest => do
      let member ← settled (member.mapError (zipError prepared.filename))
      let entry ← extractMember fs host env prepared member
      let entries ← extractArchive prepared rest
      pure (entry.toList ++ entries)

def writeEntryPointScripts (filename : Text) (entryPoint : EntryPoint) : FsM σ (List RecordEntry) := do
  let scriptName ← settled (safeScriptName filename entryPoint.name)
  let scriptPath := join env.scriptsDir (components scriptName)
  let launcherPath := join env.scriptsDir (components (scriptName ++ ".py".toList))
  let shim := shimContent (display (host.absolute launcherPath))
  let launcher := pythonLauncherContent entryPoint (display (host.absolute env.scriptsDir))
    (display (host.absolute env.sitePackages))
  let scriptRecordPath ← settled (recordPathForDestination env scriptPath)
  let script ← writeRecordedFile fs host scriptPath scriptRecordPath (.text shim) true
  let launcherRecordPath ← settled (recordPathForDestination env launcherPath)
  let launcher ← writeRecordedFile fs host launcherPath launcherRecordPath (.text launcher) false
  pure [script, launcher]

/-- A script replaces the entries of its path. -/
def addScriptEntries (entries scripts : List RecordEntry) : List RecordEntry :=
  scripts.foldl
    (fun entries script ↦ entries.filter (fun entry ↦ entry.path ≠ script.path) ++ [script]) entries

def writeScripts (filename : Text) (entries : List RecordEntry) :
    List EntryPoint → FsM σ (List RecordEntry)
  | [] => pure entries
  | entryPoint :: rest => do
      let scripts ← writeEntryPointScripts fs host env filename entryPoint
      writeScripts filename (addScriptEntries entries scripts) rest

def dedupePreservingOrder (names : List Text) : List Text :=
  names.foldl (fun out name ↦ if name ∈ out then out else out ++ [name]) []

/-- The import name that an installed path stands for. -/
def importName? (path : Text) : Option Text :=
  let endsWith (ending name : Text) : Bool := ending.isSuffixOf name
  match components path with
  | .normal first :: rest =>
      if endsWith ".dist-info".toList first || endsWith ".data".toList first then none
      else
        match rest with
        | .normal second :: _ => if second = "__init__.py".toList then some first else none
        | [] =>
            if endsWith ".py".toList first then some (trimEndMatches ".py".toList first.length first)
            else none
        | _ => none
  | _ => none

/-- The names in a sorted set. -/
def sortedSet (names : List Text) : List Text :=
  (dedupePreservingOrder names).insertionSort (· ≤ ·)

def importNames (topLevelText : Option Text) (entries : List RecordEntry) : List Text :=
  let names := dedupePreservingOrder (((topLevelText.map lines).getD []).map trim |>.filter (· ≠ []))
  if names ≠ [] then names else sortedSet (entries.filterMap fun entry ↦ importName? entry.path)

/-- The generated files in the metadata directory. -/
def writeGenerated (prepared : Prepared) (entries : List RecordEntry)
    (directUrl : Option (Except Error Text)) : FsM σ (List RecordEntry) := do
  let installer := join prepared.distInfo (components "INSTALLER".toList)
  let installerRecordPath ← settled (pathToRecordString installer)
  let entry ← writeRecordedFile fs host (join env.sitePackages installer) installerRecordPath
    (.text "pon\n".toList) false
  let entries := entries ++ [entry]
  match directUrl with
  | none => pure entries
  | some json => do
      let json ← settled json
      let json := if json.getLast? = some '\n' then json else json ++ ['\n']
      let path := join prepared.distInfo (components "direct_url.json".toList)
      let recordPath ← settled (pathToRecordString path)
      let entry ← writeRecordedFile fs host (join env.sitePackages path) recordPath (.text json) false
      pure (entries ++ [entry])

def writeEntryPoints (prepared : Prepared) (entries : List RecordEntry) : FsM σ (List RecordEntry) :=
  match prepared.inspection.entryPointsText with
  | none => pure entries
  | some text => do
      let entryPoints ← settled (parseEntryPoints text (prepared.filename ++ " entry_points.txt".toList))
      writeScripts fs host env prepared.filename entries
        (entryPoints.consoleScripts ++ entryPoints.guiScripts)

def installWheel (resolved : ResolvedRecord) (wheelPath : Text) (archive : Except Error Archive)
    (directUrl : Option (Except Error Text)) : FsM σ InstallReport := do
  let prepared ← settled (prepareWheel host resolved wheelPath archive)
  createDirs fs env
  let entries ← extractArchive fs host env prepared prepared.archive
  let importNames := importNames prepared.inspection.topLevelText entries
  let entries ← writeGenerated fs host env prepared entries directUrl
  let entries ← writeEntryPoints fs host env prepared entries
  let recordPath ← settled (pathToRecordString prepared.recordPath)
  let entries := entries ++ [{ path := recordPath, hash := none, size := none }]
  writeFile fs (join env.sitePackages prepared.recordPath) (.text (writeRecord entries))
  upsertInstalledPackage fs env
    { name := Package.normalize resolved.name, version := resolved.version, artifactKind := "wheel".toList
      importNames, recordPath := some (display prepared.recordPath) }
  pure
    { packageName := Package.normalize resolved.name, version := resolved.version
      artifactKind := "wheel".toList, importNames }

end Install

end Pon.Wheel
