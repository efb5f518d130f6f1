import Pon.Manifest.PyProject
import Pon.Wheel.Filename

/-!
# Requirements

A dependency string is a bare URL, a local path or a full requirement. Its name is taken from the last
segment of the URL, from the archive or the project at the path, or from the requirement.
-/

namespace Pon.Manifest

open Package Paths

inductive RequirementInput where
  | pep508 (name : Text)
  | path (path : Text)
  | url (text : Text) (segments : Option (List Text))

inductive ArchiveKind where
  | wheel
  | sdist

def archiveKind (raw : Text) : Option ArchiveKind :=
  if ".whl".toList.isSuffixOf raw then some .wheel
  else if ".tar.gz".toList.isSuffixOf raw || ".zip".toList.isSuffixOf raw then some .sdist
  else none

def isBareUrl (raw : Text) : Bool :=
  "http://".toList.isPrefixOf raw || "https://".toList.isPrefixOf raw || "file://".toList.isPrefixOf raw ||
    "git+".toList.isPrefixOf raw

def looksLikePath (raw : Text) : Bool :=
  raw.head? = some '.' || raw.head? = some '/' || raw.head? = some '~' || raw.contains '/'

def isPep508DirectUrl (raw : Text) : Bool :=
  match splitOnce '@' raw with
  | none => false
  | some (name, url) =>
      trim name ≠ [] && !looksLikePath (trim name) && isBareUrl (trimStart url)

section Context

variable (ctx : Context)

def isExistingArchivePath (raw : Text) : Bool :=
  (archiveKind raw).isSome && ctx.pathExists raw

def parsePep508Requirement (raw : Text) : Except Error RequirementInput :=
  match ctx.parsePep508 raw with
  | some name => .ok (.pep508 name)
  | none => .error (.invalidRequirement raw)

def parseRequirementInput (raw : Text) : Except Error RequirementInput :=
  let raw := trim raw
  if raw = [] then .error (.invalidRequirement raw)
  else if isBareUrl raw then
    match ctx.parseUrl raw with
    | some (text, segments) => .ok (.url text segments)
    | none => .error (.invalidRequirement raw)
  else if isPep508DirectUrl raw then parsePep508Requirement ctx raw
  else if looksLikePath raw || isExistingArchivePath ctx raw then .ok (.path raw)
  else parsePep508Requirement ctx raw

def normalizedValidatedName (name : Text) : Except Error Text :=
  if isValidName name then .ok (Package.normalize name) else .error (.invalidName name)

/-- The name in the file name of a source distribution, or the whole file name. -/
def normalizedNameFromSdistOrBasename (filename : Text) : Except Error Text :=
  let stem := (stripSuffix ".tar.gz".toList filename).or (stripSuffix ".zip".toList filename)
  let distribution := ((stem.bind (rsplitOnce '-')).map Prod.fst).getD filename
  (normalizedValidatedName distribution).mapError fun _ ↦ .invalidRequirement filename

def normalizedNameFromFilename (filename : Text) : Except Error Text :=
  if ".whl".toList.isSuffixOf filename then
    match Wheel.WheelFilename.parse filename with
    | .ok wheel => .ok wheel.normalizedDistribution
    | .error _ => .error (.invalidRequirement filename)
  else normalizedNameFromSdistOrBasename filename

def normalizedNameFromArchivePath (path : Text) : Except Error Text :=
  match fileName (components path) with
  | some basename => normalizedNameFromFilename basename
  | none => .error (.invalidRequirement path)

def normalizedNameOfPath (path : Text) (projectRoot : Path) : Except Error Text :=
  if (archiveKind path).isSome then normalizedNameFromArchivePath path
  else do
    let resolved := join projectRoot (components path)
    let project ← PyProject.read ctx (join resolved (components "pyproject.toml".toList))
    match project.projectName with
    | none => throw (.invalidRequirement ("local package `".toList ++ display resolved ++
        "` is missing [project].name".toList))
    | some name =>
        (normalizedValidatedName name).mapError fun _ ↦ .invalidRequirement ("local package `".toList ++
          display resolved ++ "` has invalid [project].name `".toList ++ name ++ ['`'])

def normalizedNameOfUrl (text : Text) (segments : Option (List Text)) : Except Error Text :=
  match (segments.getD []).reverse.find? fun segment ↦ segment ≠ [] with
  | none => .error (.invalidRequirement text)
  | some basename => (normalizedNameFromFilename basename).mapError fun _ ↦ .invalidRequirement text

def normalizedNameOf (input : RequirementInput) (projectRoot : Path) : Except Error Text :=
  match input with
  | .pep508 name => .ok name
  | .path path => normalizedNameOfPath ctx path projectRoot
  | .url text segments => normalizedNameOfUrl text segments

def dependencyNormalizedName (raw : Text) (baseDir : Path) : Except Error Text := do
  let input ← parseRequirementInput ctx (trim raw)
  normalizedNameOf ctx input baseDir

end Context

/-- Dropping at one end keeps the other end dropped. -/
theorem dropWhile_reverse_dropWhile {α : Type} (p : α → Bool) (l : List α) :
    ((l.dropWhile p).reverse.dropWhile p).reverse.dropWhile p =
      ((l.dropWhile p).reverse.dropWhile p).reverse := by
  by_cases hnil : ((l.dropWhile p).reverse.dropWhile p).reverse = []
  · rw [hnil]
    rfl
  -- What is left starts as the text without its start does.
  have hsuffix : (l.dropWhile p).reverse.dropWhile p <:+ (l.dropWhile p).reverse := List.dropWhile_suffix p
  have hfront : ((l.dropWhile p).reverse.dropWhile p).reverse <+: l.dropWhile p := by
    simpa using List.reverse_prefix.mpr hsuffix
  obtain ⟨first, rest, hcons⟩ := List.exists_cons_of_ne_nil hnil
  obtain ⟨more, hmore⟩ := hfront
  have hhead := List.head?_dropWhile_not p l
  rw [← hmore, hcons] at hhead
  rw [hcons, List.dropWhile_cons, if_neg (by simpa using hhead)]

theorem trim_trim (text : Text) : trim (trim text) = trim text := by
  unfold trim trimStart
  rw [dropWhile_reverse_dropWhile, List.reverse_reverse]
  exact dropWhile_reverse_dropWhile isWhitespace text

theorem dependencyNormalizedName_trim (ctx : Context) (raw : Text) (baseDir : Path) :
    dependencyNormalizedName ctx (trim raw) baseDir = dependencyNormalizedName ctx raw baseDir := by
  unfold dependencyNormalizedName
  rw [trim_trim]

end Pon.Manifest
