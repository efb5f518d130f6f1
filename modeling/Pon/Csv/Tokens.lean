import Pon.Csv.Reader
import Pon.Csv.Lines

/-!
# Tokens of a record

A token of the text of a record leads from a reading to another, over the end of a line where it is inside
of quotes or escaped.
-/

namespace Pon.Csv

/-- What is left of the lines of a record, the first of them begun, and the number of its line. -/
structure Position where
  lines : List (List Char)
  lineNum : ℕ

structure Position.At (position : Position) (text : List Char) : Prop where
  cut : LinesOf text position.lines
  bound : position.lineNum ≤ 2 ^ 64 - 1

/-- The number of the last line. -/
def Position.last (position : Position) : ℕ :=
  min (position.lineNum + (position.lines.length - 1)) (2 ^ 64 - 1)

def Reading.flags (reading : Reading) (hasData lineBreak : Bool) : Reading :=
  { reading with recordHasData := hasData, escapedLineBreak := lineBreak }

section Read

variable (dialect : DialectConfig) (limit : ℤ)

def resume (outcome : Outcome) (items : List Item) (lineNum : ℕ) : Result × List Item × ℕ :=
  match outcome with
  | .returned fields => (.ok (some fields), items, lineNum)
  | .failed message => (.error message, items, lineNum)
  | .ended reading =>
    if reading.escapedLineBreak ∨ reading.inQuotes then readItems dialect limit reading items lineNum
    else (.ok (some reading.record), items, lineNum)

def readFrom (reading : Reading) (position : Position) (items : List Item) : Result × List Item × ℕ :=
  match position.lines with
  | [] => readItems dialect limit reading items position.lineNum
  | line :: lines =>
    resume dialect limit (readChars dialect limit reading line) (lines.map .text ++ items) position.lineNum

/-- A line that is not empty is read from its start. -/
theorem readItems_text {line : List Char} (nonempty : line ≠ []) (reading : Reading) (items : List Item)
    (lineNum : ℕ) :
    readItems dialect limit reading (.text line :: items) lineNum =
      resume dialect limit (readChars dialect limit { reading with escapedLineBreak := false } line) items
        (saturatingSucc lineNum) := by
  rw [readItems, if_neg fun blank ↦ nonempty blank.1]
  rfl

/-- Reading a token in front of more text leads from a reading to another. -/
def Reads (before : Reading) (token : List Char) (after : Reading) : Prop :=
  ∀ text hasData lineBreak position items, text ≠ [] → position.At (token ++ text) →
    ∃ hasData' lineBreak' position', position'.At text ∧ position'.last = position.last ∧
      readFrom dialect limit (before.flags hasData lineBreak) position items =
        readFrom dialect limit (after.flags hasData' lineBreak') position' items

variable {dialect limit}

theorem Reads.refl (reading : Reading) : Reads dialect limit reading [] reading :=
  fun _ hasData lineBreak position _ _ at_ ↦ ⟨hasData, lineBreak, position, at_, rfl, rfl⟩

theorem Reads.trans {first second third : Reading} {front back : List Char}
    (start : Reads dialect limit first front second) (next : Reads dialect limit second back third) :
    Reads dialect limit first (front ++ back) third := by
  intro text hasData lineBreak position items more at_
  rw [List.append_assoc] at at_
  obtain ⟨hasData', lineBreak', position', at', last, read⟩ :=
    start (back ++ text) hasData lineBreak position items (List.append_ne_nil_of_right_ne_nil _ more) at_
  obtain ⟨hasData'', lineBreak'', position'', at'', last', read'⟩ :=
    next text hasData' lineBreak' position' items more at'
  exact ⟨hasData'', lineBreak'', position'', at'', last'.trans last, read.trans read'⟩

/-- A character that is read, with the next line behind it where it is a line break. -/
theorem reads_char {before after : Reading} {c : Char}
    (step : ∀ hasData lineBreak, ∃ hasData' lineBreak',
      (IsLineBreak c → after.inQuotes = true ∨ lineBreak' = true) ∧
        ∀ line, readChars dialect limit (before.flags hasData lineBreak) (c :: line) =
          readChars dialect limit (after.flags hasData' lineBreak') line) :
    Reads dialect limit before [c] after := by
  rintro text hasData lineBreak ⟨lines, lineNum⟩ items more ⟨cut, bound⟩
  obtain ⟨hasData', lineBreak', continues, step⟩ := step hasData lineBreak
  obtain ⟨line, rest, isLines, ⟨-, later⟩ | ⟨isEmpty, later, together⟩⟩ := cut.advance
  · obtain rfl : lines = (c :: line) :: rest := isLines
    refine ⟨hasData', lineBreak', ⟨line :: rest, lineNum⟩, ⟨later, bound⟩, rfl, ?_⟩
    exact congrArg (resume dialect limit · (rest.map .text ++ items) lineNum) (step line)
  · obtain rfl : lines = (c :: line) :: rest := isLines
    obtain rfl : line = [] := isEmpty
    obtain _ | ⟨next, rest⟩ := rest
    · exact absurd later.join.symm more
    · refine ⟨hasData', false, ⟨next :: rest, saturatingSucc lineNum⟩, ⟨later, min_le_right _ _⟩, ?_, ?_⟩
      · change min (min (lineNum + 1) (2 ^ 64 - 1) + rest.length) (2 ^ 64 - 1) =
          min (lineNum + (rest.length + 1)) (2 ^ 64 - 1)
        omega
      · have goesOn : (after.flags hasData' lineBreak').escapedLineBreak ∨
            (after.flags hasData' lineBreak').inQuotes := (continues (together more).1).symm
        have ended : readChars dialect limit (after.flags hasData' lineBreak') [] =
            .ended (after.flags hasData' lineBreak') := by rw [readChars]
        change resume dialect limit (readChars dialect limit _ [c]) _ lineNum = _
        rw [step [], ended, resume, if_pos goesOn]
        exact readItems_text dialect limit (later.nonempty next List.mem_cons_self) _ _ _

/-- Two characters that are read together. -/
theorem reads_pair {before after : Reading} {c d : Char} (first : ¬IsLineBreak c) (second : ¬IsLineBreak d)
    (step : ∀ hasData lineBreak, ∃ hasData' lineBreak', ∀ line,
      readChars dialect limit (before.flags hasData lineBreak) (c :: d :: line) =
        readChars dialect limit (after.flags hasData' lineBreak') line) :
    Reads dialect limit before [c, d] after := by
  rintro text hasData lineBreak ⟨lines, lineNum⟩ items more ⟨cut, bound⟩
  obtain ⟨hasData', lineBreak', step⟩ := step hasData lineBreak
  obtain ⟨line, rest, isLines, ⟨-, middle⟩ | ⟨-, -, together⟩⟩ := cut.advance
  · obtain ⟨line, rest, inner, ⟨-, later⟩ | ⟨-, -, together⟩⟩ := middle.advance
    · obtain ⟨rfl, rfl⟩ := List.cons.inj inner
      obtain rfl : lines = (c :: d :: line) :: rest := isLines
      refine ⟨hasData', lineBreak', ⟨line :: rest, lineNum⟩, ⟨later, bound⟩, rfl, ?_⟩
      exact congrArg (resume dialect limit · (rest.map .text ++ items) lineNum) (step line)
    · exact absurd (together more).1 second
  · exact absurd (together nofun).1 first

/-- The special characters differ from each other, and none of them is a line break. -/
structure DialectConfig.Distinct (dialect : DialectConfig) : Prop where
  quote_delimiter : dialect.quotechar ≠ some dialect.delimiter
  escape_delimiter : dialect.escapechar ≠ some dialect.delimiter
  escape_quote : ∀ c, dialect.quotechar = some c → dialect.escapechar ≠ some c
  delimiter_break : ¬IsLineBreak dialect.delimiter
  quote_break : ∀ c, dialect.quotechar = some c → ¬IsLineBreak c
  escape_break : ∀ c, dialect.escapechar = some c → ¬IsLineBreak c

/-- Outside of quotes, behind a part of a field. -/
def unquoted (fields : List (List Char)) (field : List Char) (start : Bool) : Reading :=
  { fields, field, fieldLen := field.length, atFieldStart := start }

/-- Inside of quotes, behind a part of a field. -/
def inside (fields : List (List Char)) (field : List Char) : Reading :=
  { fields, field, fieldLen := field.length, inQuotes := true, atFieldStart := false }

theorem pushReaderChar_fits {reading : Reading} (fits : reading.fieldLen < limit) (c : Char) :
    pushReaderChar limit reading c =
      some { reading with field := reading.field ++ [c], fieldLen := reading.fieldLen + 1 } :=
  if_neg (by omega)

theorem inside_append (fields : List (List Char)) (field : List Char) (c : Char) :
    inside fields (field ++ [c]) =
      { inside fields field with field := field ++ [c], fieldLen := field.length + 1 } := by
  simp [inside]

theorem unquoted_append (fields : List (List Char)) (field : List Char) (c : Char) :
    unquoted fields (field ++ [c]) false =
      { unquoted fields field false with field := field ++ [c], fieldLen := field.length + 1 } := by
  simp [unquoted]

variable {fields : List (List Char)} {field : List Char} {c e : Char}

theorem reads_inside_plain (noEscape : dialect.escapechar ≠ some c) (noQuote : dialect.quotechar ≠ some c)
    (fits : (field.length : ℤ) < limit) :
    Reads dialect limit (inside fields field) [c] (inside fields (field ++ [c])) := by
  refine reads_char fun hasData lineBreak ↦ ⟨true, lineBreak, fun _ ↦ Or.inl rfl, fun line ↦ ?_⟩
  rw [inside_append]
  simp [readChars, Reading.flags, inside, noEscape, noQuote, pushReaderChar_fits, fits]

theorem reads_inside_doubled (isQuote : dialect.quotechar = some c) (quoteBreak : ¬IsLineBreak c)
    (noEscape : dialect.escapechar ≠ some c) (doubles : dialect.doublequote = true)
    (fits : (field.length : ℤ) < limit) :
    Reads dialect limit (inside fields field) [c, c] (inside fields (field ++ [c])) := by
  refine reads_pair quoteBreak quoteBreak fun hasData lineBreak ↦ ⟨true, lineBreak, fun line ↦ ?_⟩
  rw [inside_append]
  simp [readChars, Reading.flags, inside, noEscape, isQuote, doubles, pushReaderChar_fits, fits]

/-- An escaped character, inside of quotes and outside of them. -/
theorem reads_escaped (isEscape : dialect.escapechar = some e) (escapeBreak : ¬IsLineBreak e)
    (fits : (field.length : ℤ) < limit) :
    Reads dialect limit (inside fields field) [e, c] (inside fields (field ++ [c])) ∧
      ∀ start, Reads dialect limit (unquoted fields field start) [e, c]
        (unquoted fields (field ++ [c]) false) := by
  have escape (reading : Reading) (notEscaped : reading.escaped = false) :
      Reads dialect limit reading [e] { reading with escaped := true, atFieldStart := false } := by
    refine reads_char fun hasData lineBreak ↦
      ⟨true, lineBreak, fun isBreak ↦ absurd isBreak escapeBreak, fun line ↦ ?_⟩
    simp [readChars, Reading.flags, isEscape, notEscaped]
  constructor
  · refine (escape _ rfl).trans (reads_char fun hasData lineBreak ↦
      ⟨true, lineBreak || (c = '\r' || c = '\n'), fun _ ↦ Or.inl rfl, fun line ↦ ?_⟩)
    rw [inside_append]
    simp [readChars, Reading.flags, inside, pushReaderChar_fits, fits]
  · intro start
    refine (escape _ rfl).trans (reads_char fun hasData lineBreak ↦
      ⟨true, lineBreak || (c = '\r' || c = '\n'), fun isBreak ↦ Or.inr ?_, fun line ↦ ?_⟩)
    · obtain rfl | rfl := isBreak <;> simp
    · rw [unquoted_append]
      simp [readChars, Reading.flags, unquoted, pushReaderChar_fits, fits]

theorem reads_unquoted_plain {start : Bool} (noEscape : dialect.escapechar ≠ some c)
    (noQuote : dialect.quotechar ≠ some c) (noDelimiter : c ≠ dialect.delimiter)
    (noBreak : ¬IsLineBreak c) (noSpace : ¬(start ∧ dialect.skipinitialspace ∧ c = ' '))
    (fits : (field.length : ℤ) < limit) :
    Reads dialect limit (unquoted fields field start) [c] (unquoted fields (field ++ [c]) false) := by
  refine reads_char fun hasData lineBreak ↦
    ⟨true, lineBreak, fun isBreak ↦ absurd isBreak noBreak, fun line ↦ ?_⟩
  have noBreaks : ¬(c = '\r' ∨ c = '\n') := noBreak
  rw [unquoted_append]
  simp [-not_and, readChars, Reading.flags, unquoted, noEscape, noQuote, noDelimiter, noBreaks, noSpace,
    pushReaderChar_fits, fits]

theorem reads_open (isQuote : dialect.quotechar = some c) (quoteBreak : ¬IsLineBreak c)
    (noDelimiter : c ≠ dialect.delimiter) (noEscape : dialect.escapechar ≠ some c)
    (quoting : dialect.quoting ≠ .none) (noSpace : ¬(dialect.skipinitialspace ∧ c = ' ')) :
    Reads dialect limit (unquoted fields [] true) [c] (inside fields []) := by
  refine reads_char fun hasData lineBreak ↦
    ⟨true, lineBreak, fun isBreak ↦ absurd isBreak quoteBreak, fun line ↦ ?_⟩
  have noBreaks : ¬(c = '\r' ∨ c = '\n') := quoteBreak
  simp [-not_and, readChars, Reading.flags, unquoted, inside, noEscape, isQuote, noDelimiter, noBreaks,
    noSpace, quoting, DialectConfig.quotesEnabled]

theorem reads_delimiter {start : Bool} (distinct : dialect.Distinct) :
    Reads dialect limit (unquoted fields field start) [dialect.delimiter]
      (unquoted (fields ++ [field]) [] true) := by
  refine reads_char fun hasData lineBreak ↦
    ⟨true, lineBreak, fun isBreak ↦ absurd isBreak distinct.delimiter_break, fun line ↦ ?_⟩
  simp [readChars, Reading.flags, unquoted, distinct.escape_delimiter, Reading.pushField]

theorem reads_close (distinct : dialect.Distinct) (isQuote : dialect.quotechar = some c) :
    Reads dialect limit (inside fields field) [c, dialect.delimiter]
      (unquoted (fields ++ [field]) [] true) := by
  refine reads_pair (distinct.quote_break c isQuote) distinct.delimiter_break fun hasData lineBreak ↦
    ⟨true, lineBreak, fun line ↦ ?_⟩
  have noEscape := distinct.escape_quote c isQuote
  have noQuote : dialect.delimiter ≠ c := fun same ↦ distinct.quote_delimiter (same ▸ isQuote)
  simp [readChars, Reading.flags, inside, unquoted, distinct.escape_delimiter, Reading.pushField, noEscape,
    isQuote, noQuote]

end Read

end Pon.Csv
