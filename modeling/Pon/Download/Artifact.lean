import Mathlib.Data.UInt
import Pon.Download.Digest
import Pon.Lib.Disk
import Pon.Lib.Path
import Pon.Lib.Transition

/-!
# Artifact downloads

Calls of `download_artifact` run at the same time on one cache directory. Every file operation of a
call is one step, and so are every read of a file that is verified and every piece of a response.
The response is streamed to a part file whose name depends on the URL and the file name only, and
the digest is computed from the received bytes. Any file operation or request may fail.

The SHA-256 function is a parameter.
-/

namespace Pon.Download

open Disks Package Paths Transition

def hexValue (byte : UInt8) : Option UInt8 :=
  if 48 ≤ byte ∧ byte ≤ 57 then some (byte - 48)
  else if 97 ≤ byte ∧ byte ≤ 102 then some (byte - 97 + 10)
  else if 65 ≤ byte ∧ byte ≤ 70 then some (byte - 65 + 10)
  else none

def invalidPercentEscape (url : Text) : Error :=
  err ["invalid percent escape in file URL `".toList, url, "`".toList]

def percentDecodeBytes (url : Text) : List UInt8 → Except Error (List UInt8)
  | [] => .ok []
  | 37 :: high :: low :: rest =>
    match hexValue high, hexValue low with
    | some high, some low => (percentDecodeBytes url rest).map (((high <<< 4) ||| low) :: ·)
    | _, _ => .error (invalidPercentEscape url)
  | byte :: rest =>
    if byte = 37 then .error (invalidPercentEscape url)
    else (percentDecodeBytes url rest).map (byte :: ·)

def percentDecode (input url : Text) : Except Error Text :=
  match percentDecodeBytes url input.bytes with
  | .error error => .error error
  | .ok bytes =>
    match String.fromUTF8? ⟨bytes.toArray⟩ with
    | some text => .ok text.toList
    | none =>
      .error (err ["file URL path is not valid UTF-8 in `".toList, url, "`".toList])

def fileUrlPath (url : Text) : Except Error Path :=
  match Package.stripPrefix "file://".toList url with
  | none => .error (err ["artifact URL `".toList, url, "` is not a file URL".toList])
  | some withoutScheme =>
    let withoutFragment := ((splitOnce '#' withoutScheme).map Prod.fst).getD withoutScheme
    let withoutQuery := ((splitOnce '?' withoutFragment).map Prod.fst).getD withoutFragment
    let path :=
      ((Package.stripPrefix "localhost/".toList withoutQuery).map ('/' :: ·)).getD withoutQuery
    (percentDecode path url).map components

/-- The arguments of a call. -/
structure Request where
  url : Text
  filename : Text
  policy : HashPolicy
deriving DecidableEq

structure Env where
  cacheDir : Path
  sha256 : List UInt8 → List UInt8

/-- `sha256_hex`. -/
def Env.hexDigest (env : Env) (bytes : List UInt8) : Text :=
  hexBytes (env.sha256 bytes)

def Env.artifactDir (env : Env) (url : Text) : Path :=
  join (join env.cacheDir [.normal "wheels".toList]) [.normal (env.hexDigest url.bytes)]

def Env.cachedArtifactPath (env : Env) (request : Request) : Except Error Path :=
  if fileName (components request.filename) ≠ some request.filename then
    .error (err ["artifact filename `".toList, request.filename, "` is not a plain file name".toList])
  else
    .ok (join (env.artifactDir request.url) (components request.filename))

def Env.partPath (env : Env) (request : Request) : Path :=
  join (env.artifactDir request.url) (components (request.filename ++ ".part".toList))

/-- Where a call of `download_artifact` stands. -/
inductive Stage
  | start
  /-- `is_file` on the artifact path. -/
  | checkFile
  /-- `sha256_file`, for a file URL or for an artifact in the cache. -/
  | opening (path : Path) (fileUrl : Bool)
  | hashing (path : Path) (fileUrl : Bool) (file : ℕ) (hashed : List UInt8)
  | removing
  | createDirs
  | removePart
  | requesting
  | creating
  /-- Has the part file open and received the bytes. -/
  | streaming (file : ℕ) (received : List UInt8)
  /-- Removes the part file before it returns the error. -/
  | cleaning (error : Error)
  | renaming (received : List UInt8)
  | returning (result : Except Error Path)
  | returned (result : Except Error Path)

inductive Act
  /-- The next operation succeeds. -/
  | next
  | fail (reason : Text)
  /-- A read into a buffer of this size. -/
  | read (size : ℕ)
  /-- The response goes on with these bytes, or ends. -/
  | receive (bytes : List UInt8)
  /-- The write of a received piece fails. -/
  | failWrite (reason : Text)
deriving DecidableEq

structure State (C : Type*) where
  disk : Disk Path UInt8
  stage : C → Stage
  /-- The files that are complete under a final name: those from before, and the bodies that were
  received up to their end. -/
  complete : List (Path × List UInt8)

/-- `check_digest` on the digest of a file that exists. -/
def verified (env : Env) (request : Request) (path : Path) (fileUrl : Bool)
    (hashed : List UInt8) : Stage :=
  match checkDigest (env.hexDigest hashed) request.policy with
  | .error error => .returning (.error error)
  | .ok .pass => .returning (.ok path)
  | .ok (.mismatch expected) =>
    if fileUrl then
      .returning (.error (hashMismatchError request.filename expected (env.hexDigest hashed)))
    else .removing

/-- `check_digest` on the digest of a response. -/
def downloaded (env : Env) (request : Request) (received : List UInt8) : Stage :=
  match checkDigest (env.hexDigest received) request.policy with
  | .error error => .cleaning error
  | .ok .pass => .renaming received
  | .ok (.mismatch expected) =>
    .cleaning (hashMismatchError request.filename expected (env.hexDigest received))

/-- The end of the read loop of `sha256_file`. -/
def bytesRead (disk : Disk Path UInt8) (file : ℕ) (hashed : List UInt8) (size : ℕ) : List UInt8 :=
  ((disk.content file).drop hashed.length).take size

/-- The stage after a step, and `none` if the step is not possible. -/
def nextStage (env : Env) (request : Request) (disk : Disk Path UInt8) :
    Stage → Act → Option Stage
  | .start, .next =>
    some <|
      if "file://".toList.isPrefixOf request.url then
        match fileUrlPath request.url with
        | .error error => .returning (.error error)
        | .ok path => .opening path true
      else if !"http://".toList.isPrefixOf request.url &&
          !"https://".toList.isPrefixOf request.url then
        .returning (.error (err ["unsupported artifact URL `".toList, request.url, "`".toList]))
      else
        match env.cachedArtifactPath request with
        | .error error => .returning (.error error)
        | .ok _ => .checkFile
  | .checkFile, .next =>
    match env.cachedArtifactPath request with
    | .error _ => none
    | .ok artifact =>
      some (if (disk.dir artifact).isSome then .opening artifact false else .createDirs)
  | .checkFile, .fail _ => some .createDirs
  | .opening path fileUrl, .next => (disk.dir path).map fun file ↦ .hashing path fileUrl file []
  | .opening _ _, .fail reason => some (.returning (.error (.io reason)))
  | .hashing path fileUrl file hashed, .read size =>
    if size = 0 then none
    else if bytesRead disk file hashed size = [] then
      some (verified env request path fileUrl hashed)
    else some (.hashing path fileUrl file (hashed ++ bytesRead disk file hashed size))
  | .hashing _ _ _ _, .fail reason => some (.returning (.error (.io reason)))
  | .removing, .next => some .createDirs
  | .removing, .fail reason => some (.returning (.error (.io reason)))
  | .createDirs, .next => some .removePart
  | .createDirs, .fail reason => some (.returning (.error (.io reason)))
  | .removePart, .next => some .requesting
  | .removePart, .fail reason => some (.returning (.error (.io reason)))
  | .requesting, .next => some .creating
  | .requesting, .fail reason =>
    some (.cleaning (err ["failed to download artifact `".toList, request.url, "`: ".toList, reason]))
  | .creating, .next => some (.streaming (disk.createdFile (env.partPath request)) [])
  | .creating, .fail reason => some (.cleaning (.io reason))
  | .streaming file received, .receive bytes =>
    some (if bytes = [] then downloaded env request received else .streaming file (received ++ bytes))
  | .streaming _ _, .fail reason =>
    some (.cleaning (err ["failed to read artifact response `".toList, request.url, "`: ".toList,
      reason]))
  | .streaming _ _, .failWrite reason => some (.cleaning (.io reason))
  | .cleaning error, .next | .cleaning error, .fail _ => some (.returning (.error error))
  | .renaming _, .next =>
    match env.cachedArtifactPath request, disk.dir (env.partPath request) with
    | .ok artifact, some _ => some (.returning (.ok artifact))
    | _, _ => none
  | .renaming _, .fail reason => some (.cleaning (.io reason))
  | .returning result, .next => some (.returned result)
  | _, _ => none

/-- The file operation of a step. -/
def diskOp (env : Env) (request : Request) : Stage → Act → DiskOp Path UInt8
  | .removing, .next =>
    match env.cachedArtifactPath request with
    | .error _ => .nothing
    | .ok artifact => .remove artifact
  | .removePart, .next | .cleaning _, .next => .remove (env.partPath request)
  | .creating, .next => .create (env.partPath request)
  | .streaming file received, .receive bytes =>
    if bytes = [] then .nothing else .write file received.length bytes
  | .renaming _, .next =>
    match env.cachedArtifactPath request with
    | .error _ => .nothing
    | .ok artifact => .rename (env.partPath request) artifact
  | _, _ => .nothing

/-- The body that is complete with a step. -/
def completed (env : Env) (request : Request) : Stage → Act → List (Path × List UInt8)
  | .streaming _ received, .receive [] =>
    match env.cachedArtifactPath request with
    | .error _ => []
    | .ok artifact => [(artifact, received)]
  | _, _ => []

section Machine

variable {C : Type*} [DecidableEq C]

/-- One step of call `c`. -/
def step (env : Env) (request : C → Request) (s : State C) (c : C) (act : Act) :
    Option (State C) :=
  (nextStage env (request c) s.disk (s.stage c) act).map fun stage ↦
    { disk := s.disk.apply (diskOp env (request c) (s.stage c) act)
      stage := Function.update s.stage c stage
      complete := completed env (request c) (s.stage c) act ++ s.complete }

def Step (env : Env) (request : C → Request) (s : State C) (label : C × Act) (s' : State C) : Prop :=
  step env request s label.1 label.2 = some s'

end Machine

section Properties

variable {C : Type*} (env : Env) (request : C → Request)

/-- The name of the artifact of a call. -/
def FinalName (path : Path) : Prop :=
  ∃ c, env.cachedArtifactPath (request c) = .ok path

/-- No call has started; whatever is in the cache is complete. -/
structure Initial (s : State C) : Prop where
  stage : ∀ c, s.stage c = .start
  complete : ∀ path content, FinalName env request path → s.disk.read path = some content →
    (path, content) ∈ s.complete

/-- A path that is being returned under a policy that demands a hash leads to a file whose digest
the policy accepts, and a file under a final name is complete. -/
structure Verified (s : State C) : Prop where
  accepted : ∀ c path, s.stage c = .returning (.ok path) → (request c).policy.demandsHash = true →
    ∃ content, s.disk.read path = some content ∧ (request c).policy.Accepts (env.hexDigest content)
  whole : ∀ path content, FinalName env request path → s.disk.read path = some content →
    (path, content) ∈ s.complete

/-- The name that a call depends on: that of its part file from the time it is created or, under a
policy that demands a hash, that of a file which the call hashes or is about to return. -/
def Env.uses (env : Env) (request : Request) : Stage → Option Path
  | .streaming _ _ | .renaming _ => some (env.partPath request)
  | .hashing path _ _ _ | .returning (.ok path) =>
    if request.policy.demandsHash then some path else none
  | _ => none

/-- Calls do not get in each other's way: the file operation of a step touches no name that another
call depends on, and no part file is created under a final name. -/
structure Undisturbed (s : State C) (label : C × Act) : Prop where
  apart : ∀ other path, other ≠ label.1 → env.uses (request other) (s.stage other) = some path →
    ¬ s.disk.Touches (diskOp env (request label.1) (s.stage label.1) label.2) path
  creates : ∀ path, diskOp env (request label.1) (s.stage label.1) label.2 = .create path →
    ¬ FinalName env request path

end Properties

end Pon.Download
