import Mathlib.Data.List.Basic

/-!
# Dialects of separated values and their writer

A record is written field by field, each quoted and escaped as the dialect asks, and ended by the line
terminator.
-/

namespace Pon.Csv

inductive Quoting
  | minimal | all | nonnumeric | none | strings | notnull
deriving DecidableEq

structure DialectConfig where
  delimiter : Char := ','
  quotechar : Option Char := some '"'
  escapechar : Option Char := none
  doublequote : Bool := true
  skipinitialspace : Bool := false
  lineterminator : List Char := ['\r', '\n']
  quoting : Quoting := .minimal
  strict : Bool := false
deriving DecidableEq

inductive ConfigError
  | type (message : String)
  | raised

def validateDialect (config : DialectConfig) : Except ConfigError Unit :=
  if config.quoting ≠ .none ∧ config.quotechar = none then
    .error (.type "quotechar must be set if quoting enabled")
  else .ok ()

theorem validateDialect_default : validateDialect {} = .ok () := rfl

/-- A field of a row. The text of an object is absent where its conversion raises. -/
inductive Field
  | none
  | str (text : List Char)
  | number (text : Option (List Char))
  | other (text : Option (List Char))

def Field.text : Field → Except String (List Char)
  | .none => .ok []
  | .str text => .ok text
  | .number (some text) | .other (some text) => .ok text
  | .number Option.none | .other Option.none => .error "field string conversion failed"

def Quoting.quotes : Quoting → Field → Bool
  | .all, _ => true
  | .nonnumeric, .number _ => false
  | .nonnumeric, _ => true
  | .strings, .str _ => true
  | .strings, _ => false
  | .notnull, .none => false
  | .notnull, _ => true
  | .none, _ | .minimal, _ => false

/-- The text of a field, and whether it is quoted. -/
structure Writing where
  body : List Char := []
  quoted : Bool

def quotecharMessage : String := "quotechar must be set if quoting enabled"

def escapeMessage : String := "need to escape, but no escapechar set"

def appendChar (dialect : DialectConfig) (writing : Writing) (c : Char) : Except String Writing :=
  let isQuote := dialect.quotechar = some c
  let isDelim := c = dialect.delimiter
  let isLine := c = '\r' ∨ c = '\n' ∨ c ∈ dialect.lineterminator
  let isEscape := dialect.escapechar = some c
  if dialect.quoting = .none then
    if isQuote ∨ isDelim ∨ isLine ∨ isEscape then
      match dialect.escapechar with
      | none => .error escapeMessage
      | some escape => .ok { writing with body := writing.body ++ [escape, c] }
    else .ok { writing with body := writing.body ++ [c] }
  else if isEscape then
    match dialect.escapechar with
    | none => .ok { writing with body := writing.body ++ [c] }
    | some escape => .ok { writing with body := writing.body ++ [escape, c] }
  else if isQuote then
    if dialect.doublequote then
      match dialect.quotechar with
      | none => .error quotecharMessage
      | some quote => .ok { body := writing.body ++ [quote, quote], quoted := true }
    else
      match dialect.escapechar with
      | none => .error escapeMessage
      | some escape => .ok { writing with body := writing.body ++ [escape, c] }
  else
    .ok { body := writing.body ++ [c],
          quoted := writing.quoted || (dialect.quoting = .minimal && (isDelim || isLine)) }

def appendField (out : List Char) (dialect : DialectConfig) (field : Field) (rowLen : ℕ) :
    Except String (List Char) := do
  let text ← field.text
  let quoted := dialect.quoting.quotes field
  if text = [] ∧ rowLen = 1 ∧ quoted = false then .error "single empty field record must be quoted"
  else do
    let quoted := if text = [] ∧ rowLen = 1 then true else quoted
    let writing ← text.foldlM (appendChar dialect) { quoted }
    if writing.quoted then
      match dialect.quotechar with
      | none => .error quotecharMessage
      | some quote => .ok (out ++ [quote] ++ writing.body ++ [quote])
    else .ok (out ++ writing.body)

def renderFields (dialect : DialectConfig) (rowLen : ℕ) (out : List Char) (entry : Field × ℕ) :
    Except String (List Char) :=
  appendField (if entry.2 > 0 then out ++ [dialect.delimiter] else out) dialect entry.1 rowLen

def renderRecord (dialect : DialectConfig) (fields : List Field) : Except String (List Char) := do
  let out ← fields.zipIdx.foldlM (renderFields dialect fields.length) []
  .ok (out ++ dialect.lineterminator)

end Pon.Csv
