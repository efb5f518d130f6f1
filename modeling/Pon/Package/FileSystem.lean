import Pon.Lib.Effect
import Pon.Lib.Path
import Pon.Package.Names

/-!
# File systems

The package manager uses a file system through a handful of operations on paths. Any behaviour of
them is allowed here. The contents of a file are a text, or bytes that are not UTF-8.
-/

namespace Pon.Package

open Effect Paths

inductive Content where
  | text (text : Text)
  | binary (bytes : List UInt8)
deriving DecidableEq

def Content.size : Content → ℕ
  | .text value => (Text.bytes value).length
  | .binary bytes => bytes.length

/-- The kinds of errors that are told apart. -/
inductive IoError where
  | notFound
  | directoryNotEmpty
  | other
deriving DecidableEq

inductive FileType where
  | file
  | dir
  | symlink
deriving DecidableEq

structure FileSystem (σ : Type) where
  createDirAll : Path → σ → Except IoError Unit × σ
  write : Path → Content → σ → Except IoError Unit × σ
  setExecutable : Path → σ → Except IoError Unit × σ
  removeFile : Path → σ → Except IoError Unit × σ
  removeDir : Path → σ → Except IoError Unit × σ
  removeDirAll : Path → σ → Except IoError Unit × σ
  read : Path → σ → Except IoError Content
  symlinkMetadata : Path → σ → Except IoError FileType
  isFile : Path → σ → Bool
  readDir : Path → σ → Except IoError (List (Text × FileType))

/-- What a file system is asked to change. Writing the package registry is kept apart from writing
another file. -/
inductive Request where
  | createDir (path : Path)
  | write (path : Path)
  | register (path : Path)
  | setExecutable (path : Path)
  | removeFile (path : Path)
  | removeDir (path : Path)
  | removeDirAll (path : Path)
deriving DecidableEq

inductive Error where
  | invalidWheelFilename (name : Text)
  | unsupportedArtifact (message : Text)
  | io (error : IoError)
deriving DecidableEq

/-- An operation on a file system. -/
abbrev FsM (σ : Type) := Op σ Request Error

variable {σ α : Type}

def ioResult (result : Except IoError α × σ) : Except Error α × σ :=
  (result.1.mapError .io, result.2)

namespace FileSystem

variable (fs : FileSystem σ) (path : Path)

def mkdirs : FsM σ Unit :=
  perform (.createDir path) fun state ↦ ioResult (fs.createDirAll path state)

def put (content : Content) : FsM σ Unit :=
  perform (.write path) fun state ↦ ioResult (fs.write path content state)

def putRegistry (content : Content) : FsM σ Unit :=
  perform (.register path) fun state ↦ ioResult (fs.write path content state)

def chmod : FsM σ Unit :=
  perform (.setExecutable path) fun state ↦ ioResult (fs.setExecutable path state)

def unlink : FsM σ Unit :=
  perform (.removeFile path) fun state ↦ ioResult (fs.removeFile path state)

def rmdir : FsM σ (Except IoError Unit) :=
  perform (.removeDir path) fun state ↦ (.ok (fs.removeDir path state).1, (fs.removeDir path state).2)

def rmtree : FsM σ Unit :=
  perform (.removeDirAll path) fun state ↦ ioResult (fs.removeDirAll path state)

/-- `read_to_string`. -/
def readText : FsM σ (Except IoError Text) :=
  query fun state ↦ .ok (match fs.read path state with
    | .ok (.text value) => .ok value
    | .ok (.binary _) => .error .other
    | .error error => .error error)

end FileSystem

end Pon.Package
