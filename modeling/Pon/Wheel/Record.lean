import Mathlib.Algebra.Group.Nat.Defs
import Pon.Wheel.Filename

/-!
# RECORD files

A RECORD lists the files of an installed distribution, one row of a path, a hash and a size for each.
Rows are read one line at a time, so that a quoted line break inside a path ends the row. The digest of
a content is a parameter.
-/

namespace Pon.Wheel

open Package

structure RecordEntry where
  path : Text
  hash : Option Text
  size : Option ℕ
deriving DecidableEq

/-- The digest of a content, as URL-safe unpadded base64 of its SHA-256. -/
abbrev Digest := Content → Text

def recordEntryFromDigest (path : Text) (size : ℕ) (digest : Text) : RecordEntry where
  path
  hash := some ("sha256=".toList ++ digest)
  size := some size

def RecordEntry.fromContent (digest : Digest) (path : Text) (content : Content) : RecordEntry :=
  recordEntryFromDigest path content.size (digest content)

/-- The fields of the rest of a line; a quote that is not doubled starts or ends a quoted part. -/
def csvFields (quoted : Bool) (field : Text) : Text → Except Text (List Text)
  | [] => if quoted then .error "unterminated quoted field".toList else .ok [field]
  | '"' :: '"' :: rest =>
      if quoted then csvFields true (field ++ ['"']) rest else csvFields true field ('"' :: rest)
  | '"' :: rest => csvFields (!quoted) field rest
  | ',' :: rest =>
      if quoted then csvFields true (field ++ [',']) rest
      else do
        let fields ← csvFields false [] rest
        pure (field :: fields)
  | c :: rest => csvFields quoted (field ++ [c]) rest

def parseCsvLine (line : Text) : Except Text (List Text) :=
  csvFields false [] line

def u64Bound : ℕ := 2 ^ 64

def invalidRecordLine (label : Text) (line : ℕ) (message : Text) : Error :=
  .unsupportedArtifact ("invalid RECORD line ".toList ++ decimal line ++ " in ".toList ++ label ++
    ": ".toList ++ message)

/-- The entry of a row. -/
def parseRow (label : Text) (number : ℕ) (line : Text) : Except Error RecordEntry := do
  let fields ← (parseCsvLine line).mapError (invalidRecordLine label number)
  match fields with
  | [path, hash, size] =>
      if path = [] then throw (invalidRecordLine label number "empty path".toList)
      else
        let hash := if hash = [] then none else some hash
        if size = [] then pure { path, hash, size := none }
        else
          match parseUnsigned u64Bound size with
          | some size => pure { path, hash, size := some size }
          | none =>
              throw (invalidRecordLine label number ("invalid size `".toList ++ size ++ ['`']))
  | _ => throw (invalidRecordLine label number ("expected 3 fields, found ".toList ++
      decimal fields.length))

/-- The entries of the rows from a line number on; empty lines are skipped. -/
def parseRows (label : Text) (number : ℕ) : List Text → Except Error (List RecordEntry)
  | [] => pure []
  | line :: rest =>
      if line = [] then parseRows label (number + 1) rest
      else do
        let entry ← parseRow label number line
        let entries ← parseRows label (number + 1) rest
        pure (entry :: entries)

def parseRecord (text label : Text) : Except Error (List RecordEntry) :=
  parseRows label 1 (lines text)

def isRecordSelfEntry (path : Text) : Bool :=
  ".dist-info/RECORD".toList.isSuffixOf path

def csvField (field : Text) : Text :=
  if field.any fun c ↦ c = ',' ∨ c = '"' ∨ c = '\n' ∨ c = '\r' then
    '"' :: (field.flatMap fun c ↦ if c = '"' then ['"', '"'] else [c]) ++ ['"']
  else field

def recordRow (entry : RecordEntry) : Text :=
  let hash := if isRecordSelfEntry entry.path then [] else (entry.hash.map csvField).getD []
  let size := if isRecordSelfEntry entry.path then [] else (entry.size.map decimal).getD []
  csvField entry.path ++ ',' :: hash ++ ',' :: size ++ ['\n']

def writeRecord (entries : List RecordEntry) : Text :=
  entries.flatMap recordRow

end Pon.Wheel
