import Mathlib.Data.List.Infix
import Pon.Package.FileSystem
import Pon.Package.Text

/-!
# Wheel file names and compatibility

The name of a wheel tells its distribution and its tags, and the tags tell whether it can be
installed. The platform is that of a Unix host.
-/

namespace Pon.Wheel

open Package Paths

inductive Os where
  | macos
  | linux
  | other
deriving DecidableEq

inductive Arch where
  | aarch64
  | x86_64
  | other
deriving DecidableEq

/-- What is compiled into the program about its host. -/
structure Target where
  os : Os
  arch : Arch

structure Tag where
  python : Text
  abi : Text
  platform : Text
deriving DecidableEq

inductive WheelCompatibility where
  | purePython
  | cAbiRefused (reason : Text)

def Tag.display (tag : Tag) : Text :=
  tag.python ++ '-' :: tag.abi ++ '-' :: tag.platform

def parseTagSet (python abi platform : Text) : List Tag :=
  (python.splitOn '.').flatMap fun python ↦
    (abi.splitOn '.').flatMap fun abi ↦
      (platform.splitOn '.').map fun platform ↦ { python, abi, platform }

def currentPythonMinor : ℕ := 14

def supportedPythonRank (python : Text) : Option ℕ :=
  if python = "py3".toList then some 0
  else do
    let minor ← stripPrefix "py3".toList python
    if minor = [] ∨ (1 < minor.length ∧ minor.head? = some '0') then none
    else
      let minor ← parseUnsigned 256 minor
      if minor ≤ currentPythonMinor then some (minor + 1) else none

variable (target : Target)

def platformMatchesHost (platform : Text) : Bool :=
  if platform = "any".toList then true
  else
    let osMatches :=
      match target.os with
      | .macos => "macosx".toList.isPrefixOf platform
      | .linux => decide ("linux".toList <:+: platform)
      | .other => false
    let archMatches :=
      match target.arch with
      | .aarch64 => "arm64".toList.isSuffixOf platform || "aarch64".toList.isSuffixOf platform
      | .x86_64 => "x86_64".toList.isSuffixOf platform || "amd64".toList.isSuffixOf platform
      | .other => false
    osMatches && archMatches

/-- A tag of the wheels that the program builds for itself. -/
def ponNativeTag (tag : Tag) : Bool :=
  if tag.python ≠ "pon3".toList ++ decimal currentPythonMinor ∨ tag.abi ≠ "pon".toList then false
  else platformMatchesHost target tag.platform

def supportedTagRank (tag : Tag) : Option ℕ :=
  if ponNativeTag target tag then some (currentPythonMinor + 2)
  else if tag.abi = "none".toList ∧ tag.platform = "any".toList then supportedPythonRank tag.python
  else none

def defaultSupportedTags : List Tag :=
  ("py3".toList :: (List.range (currentPythonMinor + 1)).map fun minor ↦ "py3".toList ++ decimal minor).map
    fun python ↦ { python, abi := "none".toList, platform := "any".toList }

def anySupported (candidate supported : List Tag) : Bool :=
  candidate.any fun tag ↦
    ponNativeTag target tag || (decide (tag ∈ supported) && (supportedTagRank target tag).isSome)

def classifyTags (candidate supported : List Tag) : WheelCompatibility :=
  if anySupported target candidate supported then .purePython
  else .cAbiRefused ("Pon can install pure Python py*-none-any wheels only; candidate tags `".toList ++
    ", ".toList.intercalate (candidate.map Tag.display) ++
    "` target a C ABI or platform wheel".toList)

/-- The gate on `Root-Is-Purelib`. -/
def classifyRootIsPurelib (metadata : Text) (ponNative : Bool) : WheelCompatibility :=
  if ponNative then .purePython
  else
    let fields := (lines metadata).filterMap (splitOnce ':')
    match fields.find? fun field ↦ eqIgnoreAsciiCase (trim field.1) "Root-Is-Purelib".toList with
    | some (_, value) =>
        if eqIgnoreAsciiCase (trim value) "true".toList then .purePython
        else .cAbiRefused "wheel metadata Root-Is-Purelib is not true".toList
    | none => .cAbiRefused "wheel metadata omits Root-Is-Purelib".toList

/-- The extension of the last name in a path. -/
def extension (path : Path) : Option Text := do
  let name ← fileName path
  let (stem, extension) ← rsplitOnce '.' name
  if stem = [] then none else some extension

/-- The gate on native extensions. -/
def classifyArchiveMember (path : Text) : WheelCompatibility :=
  if ".pon.so".toList.isSuffixOf path then .purePython
  else
    match (extension (components path)).map toAsciiLowercase with
    | some extension =>
        if extension = "so".toList ∨ extension = "pyd".toList ∨ extension = "dylib".toList then
          .cAbiRefused ("wheel archive contains native extension member `".toList ++ path ++ ['`'])
        else .purePython
    | none => .purePython

def cabiRefused (filename reason : Text) : Error :=
  .unsupportedArtifact ("wheel `".toList ++ filename ++
    "` requires the CPython C-ABI (ob_refcnt): ".toList ++ reason ++
    "; this is a by-design limitation of pon".toList)

/-- Passes what is compatible. -/
def WheelCompatibility.check (filename : Text) : WheelCompatibility → Except Error Unit
  | .purePython => .ok ()
  | .cAbiRefused reason => .error (cabiRefused filename reason)

structure WheelFilename where
  distribution : Text
  normalizedDistribution : Text
  version : Text
  build : Option Text
  pythonTag : Text
  abiTag : Text
  platformTag : Text

def WheelFilename.ofParts (filename distribution version : Text) (build : Option Text)
    (pythonTag abiTag platformTag : Text) : Except Error WheelFilename :=
  if distribution = [] ∨ version = [] ∨ pythonTag = [] ∨ abiTag = [] ∨ platformTag = [] then
    .error (.invalidWheelFilename filename)
  else .ok
    { distribution, normalizedDistribution := Package.normalize distribution, version, build, pythonTag, abiTag
      platformTag }

def WheelFilename.parse (filename : Text) : Except Error WheelFilename :=
  let basename := (fileName (components filename)).getD filename
  match stripSuffix ".whl".toList basename with
  | none => .error (.invalidWheelFilename filename)
  | some stem =>
      match stem.splitOn '-' with
      | [distribution, version, pythonTag, abiTag, platformTag] =>
          ofParts filename distribution version none pythonTag abiTag platformTag
      | [distribution, version, build, pythonTag, abiTag, platformTag] =>
          ofParts filename distribution version (some build) pythonTag abiTag platformTag
      | _ => .error (.invalidWheelFilename filename)

def WheelFilename.tags (wheel : WheelFilename) : List Tag :=
  parseTagSet wheel.pythonTag wheel.abiTag wheel.platformTag

def validateCompatibleWheel (filename : Text) : Except Error WheelFilename := do
  let wheel ← WheelFilename.parse filename
  (classifyTags target wheel.tags defaultSupportedTags).check filename
  pure wheel

end Pon.Wheel
