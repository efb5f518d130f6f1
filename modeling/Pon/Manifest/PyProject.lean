import Mathlib.Data.Char
import Mathlib.Data.List.Lex
import Pon.Lib.OrderedMap
import Pon.Package.FileSystem
import Pon.Package.Toml

/-!
# Project manifests

What a `pyproject.toml` says about its dependencies and their sources. The keys of the sources are
compared after the normalization of names; the last spelling of a name counts. Paths are compared by
their components.
-/

namespace Pon.Manifest

open Package Paths Toml

inductive Error where
  | invalidRequirement (raw : Text)
  | invalidName (name : Text)
  | manifest (path : Path) (message : Text)
  | io (error : IoError)
deriving DecidableEq

structure PonSource where
  path : Option Path
  editable : Bool
  git : Option Text
  rev : Option Text
deriving DecidableEq

structure PyProject where
  doc : Item
  path : Path

/-- What the manifest is used in. The parsers of TOML documents, of requirements and of URLs come from
elsewhere: of a requirement only its name is used, of a URL its text and the segments of its path. -/
structure Context where
  readToString : Path → Except IoError Text
  pathExists : Text → Bool
  currentDir : Option Path
  parseToml : Text → Except Text Item
  parsePep508 : Text → Option Text
  parseUrl : Text → Option (Text × Option (List Text))

namespace PyProject

variable (project : PyProject)

def stringArrayValues (values : List Item) : List Text :=
  values.filterMap Item.asString?

def stringAt (path : List Text) : Option Text :=
  (project.doc.itemAt path).bind Item.asString?

def stringArrayAt (path : List Text) : List Text :=
  (((project.doc.itemAt path).bind Item.asArray?).map stringArrayValues).getD []

def projectName : Option Text :=
  project.stringAt ["project".toList, "name".toList]

def dependencies : List Text :=
  project.stringArrayAt ["project".toList, "dependencies".toList]

def baseDir : Path :=
  match parent project.path with
  | some [] | none => [.curDir]
  | some dir => dir

def resolveSourcePath (raw : Text) : Path :=
  if IsAbsolute (components raw) then components raw else join project.baseDir (components raw)

def invalidSource (key rest : Text) : Error :=
  .manifest project.path ("[tool.pon.sources].".toList ++ key ++ rest)

/-- The source that an entry describes. -/
def readSource (key : Text) (item : Item) : Except Error PonSource :=
  match item.entries? with
  | none => .error (project.invalidSource key " must be a table".toList)
  | some entry =>
      let rawPath := (Entries.get? "path".toList entry).bind Item.asString?
      let rawGit := (Entries.get? "git".toList entry).bind Item.asString?
      if rawPath.isSome = rawGit.isSome then
        .error (project.invalidSource key " must specify exactly one of `path` or `git`".toList)
      else if rawPath.isNone ∧ (Entries.get? "editable".toList entry).isSome then
        .error (project.invalidSource key " sets `editable` without `path`".toList)
      else .ok
        { path := rawPath.map project.resolveSourcePath
          editable := ((Entries.get? "editable".toList entry).bind Item.asBool?).getD false
          git := rawGit
          rev := (Entries.get? "rev".toList entry).bind Item.asString? }

def sourcesPath : List Text := ["tool".toList, "pon".toList, "sources".toList]

def sourceEntries : Entries := project.doc.entriesAt sourcesPath

/-- The sources of some entries, under their normalized names. -/
def readSources : Entries → Except Error (List (Text × PonSource))
  | [] => pure []
  | (key, item) :: rest => do
      let source ← project.readSource key item
      let sources ← readSources rest
      pure ((normalize key, source) :: sources)

def parseSources : Except Error (OrderedMap Text PonSource) := do
  let sources ← project.readSources project.sourceEntries
  pure (OrderedMap.empty.insertAll sources)

def sources : OrderedMap Text PonSource :=
  match project.parseSources with
  | .ok sources => sources
  | .error _ => .empty

end PyProject

def PyProject.fromStr (ctx : Context) (path : Path) (text : Text) : Except Error PyProject := do
  let doc ← (ctx.parseToml text).mapError (.manifest path)
  let project : PyProject := { doc, path }
  let _ ← project.parseSources
  pure project

/-- A manifest that does not exist is empty. -/
def PyProject.read (ctx : Context) (path : Path) : Except Error PyProject :=
  match ctx.readToString path with
  | .ok content => fromStr ctx path content
  | .error .notFound => fromStr ctx path []
  | .error error => .error (.io error)

end Pon.Manifest
