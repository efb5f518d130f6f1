import Pon.Wheel.Record

/-!
# Entry points

The scripts that a wheel declares in its `entry_points.txt`, and the shell shim and the launcher that
are generated for each of them.
-/

namespace Pon.Wheel

open Package Paths

structure EntryPoint where
  name : Text
  module : Text
  attr : Text

structure EntryPoints where
  consoleScripts : List EntryPoint
  guiScripts : List EntryPoint

inductive Section where
  | consoleScripts
  | guiScripts
  | other
deriving DecidableEq

def malformed (label : Text) (lineNumber : ℕ) (reason : Text) : Error :=
  .unsupportedArtifact ("entry points `".toList ++ label ++ "` line ".toList ++ decimal lineNumber ++
    ": ".toList ++ reason)

/-- A comment starts with `#` or `;`. -/
def isComment (text : Text) : Bool :=
  text.head? = some '#' || text.head? = some ';'

/-- The section of a header line, which starts with a bracket. -/
def parseSection (line label : Text) (lineNumber : ℕ) : Except Error Section :=
  match splitOnce ']' line with
  | none => .error (malformed label lineNumber "section header is missing `]`".toList)
  | some (header, trailing) =>
      let name := trim (header.drop 1)
      let trailing := trim trailing
      if trailing ≠ [] ∧ isComment trailing = false then
        .error (malformed label lineNumber "section header has trailing content".toList)
      else if name = "console_scripts".toList then .ok .consoleScripts
      else if name = "gui_scripts".toList then .ok .guiScripts
      else .ok .other

/-- Drops a trailing comment and an extras suffix. -/
def stripEntryPointSuffix (target : Text) : Text :=
  let target := trim (((splitOnce ';' target).map Prod.fst).getD target)
  match rsplitOnce '[' target with
  | some (before, _) =>
      if target.getLast? = some ']' ∧ before.getLast?.any isWhitespace then trimEnd before else target
  | none => target

def parseScript (line label : Text) (lineNumber : ℕ) : Except Error EntryPoint :=
  match splitOnce '=' line with
  | none => .error (malformed label lineNumber "script entry is missing `=`".toList)
  | some (name, target) =>
      let name := trim name
      if name = [] then .error (malformed label lineNumber "script name is empty".toList)
      else
        match splitOnce ':' (stripEntryPointSuffix target) with
        | none => .error (malformed label lineNumber "script target is missing `:`".toList)
        | some (module, attr) =>
            let module := trim module
            let attr := trim attr
            if module = [] then
              .error (malformed label lineNumber "script target module is empty".toList)
            else if attr = [] then
              .error (malformed label lineNumber "script target attribute is empty".toList)
            else .ok { name, module, attr }

/-- The scripts of the lines from a line number on, in a section. -/
def parseEntryPointLines (label : Text) (lineNumber : ℕ) (current : Section) :
    List Text → Except Error EntryPoints
  | [] => pure { consoleScripts := [], guiScripts := [] }
  | rawLine :: rest =>
      let line := trim rawLine
      if line = [] ∨ isComment line then parseEntryPointLines label (lineNumber + 1) current rest
      else if line.head? = some '[' then do
        let current ← parseSection line label lineNumber
        parseEntryPointLines label (lineNumber + 1) current rest
      else
        match current with
        | .other => parseEntryPointLines label (lineNumber + 1) current rest
        | .consoleScripts => do
            let script ← parseScript line label lineNumber
            let scripts ← parseEntryPointLines label (lineNumber + 1) current rest
            pure { scripts with consoleScripts := script :: scripts.consoleScripts }
        | .guiScripts => do
            let script ← parseScript line label lineNumber
            let scripts ← parseEntryPointLines label (lineNumber + 1) current rest
            pure { scripts with guiScripts := script :: scripts.guiScripts }

def parseEntryPoints (text label : Text) : Except Error EntryPoints :=
  parseEntryPointLines label 1 .other (lines text)

def shellDoubleQuoted (value : Text) : Text :=
  value.flatMap fun c ↦ if c = '\\' ∨ c = '"' ∨ c = '$' ∨ c = '`' then ['\\', c] else [c]

def hexDigits (code : ℕ) : Text :=
  let digits := Nat.toDigits 16 code
  List.replicate (2 - digits.length) '0' ++ digits

/-- `char::is_control`. -/
def isControl (c : Char) : Bool :=
  c.toNat < 32 || (127 ≤ c.toNat && c.toNat < 160)

def pythonStringLiteral (value : Text) : Text :=
  '\'' :: (value.flatMap fun c ↦
    if c = '\\' then ['\\', '\\']
    else if c = '\'' then ['\\', '\'']
    else if c = '\n' then ['\\', 'n']
    else if c = '\r' then ['\\', 'r']
    else if c = '\t' then ['\\', 't']
    else if isControl c then ['\\', 'x'] ++ hexDigits c.toNat
    else [c]) ++ ['\'']

def isSimpleIdentifier (value : Text) : Bool :=
  match value with
  | [] => false
  | first :: rest => (first = '_' || first.isAlpha) && rest.all fun c ↦ c = '_' || c.isAlphanum

def pythonLauncherPrelude (scriptDir sitePackages rootModule : Text) : Text :=
  "import sys\n_pon_script_dir = ".toList ++ pythonStringLiteral scriptDir ++
  "\n_pon_site_packages = ".toList ++ pythonStringLiteral sitePackages ++
  "\n_pon_root_module = ".toList ++ pythonStringLiteral rootModule ++
  "\nif __name__ != '__main__':
    _pon_module = __name__
    _pon_package_dir = _pon_site_packages + '/' + _pon_module
    _pon_package_init = _pon_package_dir + '/__init__.py'
    _pon_module_file = _pon_site_packages + '/' + _pon_module + '.py'
    if _pon_module == _pon_root_module:
        _pon_candidates = [(_pon_package_init, _pon_package_dir, True), (_pon_module_file, '', False)]
    else:
        _pon_candidates = [(_pon_module_file, '', False), (_pon_package_init, _pon_package_dir, True)]
    _pon_file = None
    for _pon_path, _pon_dir, _pon_is_package in _pon_candidates:
        try:
            _pon_file = open(_pon_path)
            __file__ = _pon_path
            if _pon_is_package:
                __path__ = [_pon_dir]
                __package__ = _pon_module
            else:
                __package__ = ''
            break
        except Exception:
            pass
    if _pon_file is None:
        raise ImportError(_pon_module)
    _pon_source = _pon_file.read()
    _pon_file.close()
    exec(_pon_source, globals())
else:
    if sys.path and sys.path[0] == _pon_script_dir:
        del sys.path[0]
".toList

def pythonLauncherContent (entryPoint : EntryPoint) (scriptDir sitePackages : Text) : Text :=
  let rootModule := ((entryPoint.module.splitOn '.').head?).getD entryPoint.module
  let start := pythonLauncherPrelude scriptDir sitePackages rootModule
  if isSimpleIdentifier entryPoint.attr then
    start ++ "    from ".toList ++ entryPoint.module ++ " import ".toList ++ entryPoint.attr ++
      "\n    sys.exit(".toList ++ entryPoint.attr ++ "())\n".toList
  else
    start ++ "    import ".toList ++ entryPoint.module ++
      " as _pon_entry_module\n    _pon_entry = _pon_entry_module\n".toList ++
      ((entryPoint.attr.splitOn '.').filter (· ≠ [])).flatMap (fun attr ↦
        "    _pon_entry = getattr(_pon_entry, ".toList ++ pythonStringLiteral attr ++ ")\n".toList) ++
      "    sys.exit(_pon_entry())\n".toList

def shimContent (launcher : Text) : Text :=
  "#!/bin/sh\nexec \"$\x7bPON_SYS_EXECUTABLE:-pon\x7d\" \"".toList ++ shellDoubleQuoted launcher ++
    "\" \"$@\"\n".toList

def unsafeScriptName (filename name : Text) : Error :=
  .unsupportedArtifact ("wheel `".toList ++ filename ++ "` entry point script name `".toList ++ name ++
    "` is not safe".toList)

/-- A script name is a single name. -/
def safeScriptName (filename name : Text) : Except Error Text :=
  if name = [] ∨ '/' ∈ name ∨ '\\' ∈ name then .error (unsafeScriptName filename name)
  else
    match components name with
    | [.normal _] => .ok name
    | _ => .error (unsafeScriptName filename name)

end Pon.Wheel
