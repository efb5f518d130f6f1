import Pon.Csv.Writer
import Mathlib.Algebra.Order.Ring.Int

/-!
# Reader of separated values

A record is read from the lines of an iterator, character by character. A line ends a record unless a
quoted field is open or the line has an escaped line break.
-/

namespace Pon.Csv

/-- What the iterator gives next. It stops at the end of the list. -/
inductive Item
  | text (line : List Char)
  | notText (typeName : String)
  | raised

structure CsvReader where
  items : List Item
  dialect : DialectConfig
  lineNum : ℕ := 0

structure Reading where
  fields : List (List Char) := []
  field : List Char := []
  fieldLen : ℤ := 0
  inQuotes : Bool := false
  afterQuote : Bool := false
  atFieldStart : Bool := true
  escaped : Bool := false
  recordHasData : Bool := false
  escapedLineBreak : Bool := false

/-- Where the characters of a line lead. -/
inductive Outcome
  | returned (fields : List (List Char))
  | failed (message : String)
  | ended (reading : Reading)

def limitMessage (limit : ℤ) : String := "field larger than field limit (" ++ toString limit ++ ")"

/-- The field with a character, or none where it is larger than the limit. -/
def pushReaderChar (limit : ℤ) (reading : Reading) (c : Char) : Option Reading :=
  if limit < reading.fieldLen + 1 then none
  else some { reading with field := reading.field ++ [c], fieldLen := reading.fieldLen + 1 }

def Reading.pushField (reading : Reading) : Reading :=
  { reading with
    fields := reading.fields ++ [reading.field], field := [], fieldLen := 0, afterQuote := false,
    atFieldStart := true, recordHasData := true }

def Reading.blank (reading : Reading) : Bool :=
  !reading.recordHasData && reading.fields.isEmpty && reading.field.isEmpty

/-- The record at the end of a line. -/
def Reading.record (reading : Reading) : List (List Char) :=
  if reading.blank then [] else reading.fields ++ [reading.field]

def DialectConfig.quotesEnabled (dialect : DialectConfig) : Bool :=
  dialect.quoting ≠ .none && dialect.quotechar.isSome

def readChars (dialect : DialectConfig) (limit : ℤ) : Reading → List Char → Outcome
  | reading, [] => .ended reading
  | reading, c :: rest =>
    if reading.escaped then
      match pushReaderChar limit { reading with recordHasData := true } c with
      | none => .failed (limitMessage limit)
      | some reading =>
        readChars dialect limit
          { reading with
            escapedLineBreak := reading.escapedLineBreak || (c = '\r' || c = '\n')
            escaped := false
            atFieldStart := false } rest
    else if dialect.escapechar = some c then
      readChars dialect limit
        { reading with recordHasData := true, escaped := true, atFieldStart := false } rest
    else if reading.inQuotes then
      let reading := { reading with recordHasData := true }
      if dialect.quotechar = some c then
        if dialect.doublequote ∧ rest.head? = dialect.quotechar then
          match pushReaderChar limit reading c with
          | none => .failed (limitMessage limit)
          | some reading => readChars dialect limit reading rest.tail
        else readChars dialect limit { reading with inQuotes := false, afterQuote := true } rest
      else
        match pushReaderChar limit reading c with
        | none => .failed (limitMessage limit)
        | some reading => readChars dialect limit reading rest
    else if reading.afterQuote then
      if c = dialect.delimiter then readChars dialect limit reading.pushField rest
      else if c = '\r' ∨ c = '\n' then .returned (reading.fields ++ [reading.field])
      else if dialect.skipinitialspace ∧ c = ' ' then readChars dialect limit reading rest
      else if dialect.strict then .failed "',' expected after '"
      else
        match pushReaderChar limit { reading with recordHasData := true } c with
        | none => .failed (limitMessage limit)
        | some reading =>
          readChars dialect limit { reading with afterQuote := false, atFieldStart := false } rest
    else if c = dialect.delimiter then readChars dialect limit reading.pushField rest
    else if c = '\r' ∨ c = '\n' then .returned reading.record
    else if reading.atFieldStart ∧ dialect.skipinitialspace ∧ c = ' ' then
      readChars dialect limit reading rest
    else if reading.atFieldStart ∧ dialect.quotesEnabled ∧ dialect.quotechar = some c then
      readChars dialect limit
        { reading with inQuotes := true, atFieldStart := false, recordHasData := true } rest
    else
      match pushReaderChar limit { reading with recordHasData := true, atFieldStart := false } c with
      | none => .failed (limitMessage limit)
      | some reading => readChars dialect limit reading rest
termination_by _ text => text.length
decreasing_by all_goals simp; try omega

/-- A saturating count of lines. -/
def saturatingSucc (lineNum : ℕ) : ℕ := min (lineNum + 1) (2 ^ 64 - 1)

abbrev Result := Except String (Option (List (List Char)))

/-- The record, the items behind it and the number of its last line. -/
def readItems (dialect : DialectConfig) (limit : ℤ) :
    Reading → List Item → ℕ → Result × List Item × ℕ
  | reading, [], lineNum =>
    if reading.inQuotes then
      if dialect.strict then (.error "unexpected end of data", [], lineNum)
      else (.ok (some (reading.fields ++ [reading.field])), [], lineNum)
    else (.ok none, [], lineNum)
  | _, .raised :: items, lineNum => (.error "iteration raised an exception", items, lineNum)
  | _, .notText typeName :: items, lineNum =>
    (.error ("iterator should return strings, not " ++ typeName), items, lineNum)
  | reading, .text line :: items, lineNum =>
    if line = [] ∧ reading.inQuotes = false ∧ reading.fields = [] ∧ reading.field = [] ∧
        reading.atFieldStart then
      (.ok (some []), items, saturatingSucc lineNum)
    else
      match readChars dialect limit { reading with escapedLineBreak := false } line with
      | .returned fields => (.ok (some fields), items, saturatingSucc lineNum)
      | .failed message => (.error message, items, saturatingSucc lineNum)
      | .ended reading =>
        if reading.escapedLineBreak ∨ reading.inQuotes then
          readItems dialect limit reading items (saturatingSucc lineNum)
        else (.ok (some reading.record), items, saturatingSucc lineNum)

def readRecord (limit : ℤ) (reader : CsvReader) : Result × CsvReader :=
  match readItems reader.dialect limit {} reader.items reader.lineNum with
  | (result, items, lineNum) => (result, { reader with items, lineNum })

end Pon.Csv
