import Pon.Csv.Tokens

/-!
# Round trip of records

Reading follows the pieces that the writer appends, field by field, up to the terminator of the record.
-/

namespace Pon.Csv

section Read

variable {dialect : DialectConfig} {limit : ℤ} {fields : List (List Char)} {field : List Char} {c : Char}

/-! ## Fields -/

/-- Whether a character makes the writer quote the field. -/
def Forces (dialect : DialectConfig) (c : Char) : Prop :=
  dialect.quoting ≠ .none ∧ dialect.escapechar ≠ some c ∧
    (dialect.quotechar = some c ∧ dialect.doublequote = true ∨
      dialect.quotechar ≠ some c ∧ dialect.quoting = .minimal ∧
        (c = dialect.delimiter ∨ c = '\r' ∨ c = '\n' ∨ c ∈ dialect.lineterminator))

/-- What the writer appends for a character. -/
inductive Piece (dialect : DialectConfig) (c : Char) : List Char → Prop
  | escaped {e : Char} : dialect.escapechar = some e → Piece dialect c [e, c]
  | doubled : Forces dialect c → dialect.quotechar = some c → dialect.doublequote = true →
      Piece dialect c [c, c]
  | plain : dialect.escapechar ≠ some c → dialect.quotechar ≠ some c →
      (dialect.quoting = .none → c ≠ dialect.delimiter ∧ ¬IsLineBreak c) → Piece dialect c [c]

variable {before after : Writing} {text out result : List Char} {rowLen : ℕ}

theorem appendChar_piece (ok : appendChar dialect before c = .ok after) :
    ∃ piece, Piece dialect c piece ∧ after.body = before.body ++ piece ∧
      (after.quoted = true ↔ before.quoted = true ∨ Forces dialect c) := by
  unfold appendChar at ok
  dsimp only at ok
  by_cases quoting : dialect.quoting = .none
  · have noForce : ¬Forces dialect c := fun forces ↦ forces.1 quoting
    rw [if_pos quoting] at ok
    split_ifs at ok with special
    · split at ok
      · exact nomatch ok
      · rename_i escape isEscape
        obtain rfl := Except.ok.inj ok
        exact ⟨_, .escaped isEscape, rfl, (or_iff_left noForce).symm⟩
    · obtain rfl := Except.ok.inj ok
      obtain ⟨noQuote, noDelimiter, noLine, noEscape⟩ := by simpa only [not_or] using special
      refine ⟨_, .plain noEscape noQuote fun _ ↦ ⟨noDelimiter, ?_⟩, rfl, (or_iff_left noForce).symm⟩
      exact not_or.mpr ⟨noLine.1, noLine.2.1⟩
  · rw [if_neg quoting] at ok
    by_cases isEscape : dialect.escapechar = some c
    · have noForce : ¬Forces dialect c := fun forces ↦ forces.2.1 isEscape
      rw [if_pos isEscape, isEscape] at ok
      obtain rfl := Except.ok.inj ok
      exact ⟨_, .escaped isEscape, rfl, (or_iff_left noForce).symm⟩
    · rw [if_neg isEscape] at ok
      by_cases isQuote : dialect.quotechar = some c
      · rw [if_pos isQuote] at ok
        by_cases doubles : dialect.doublequote = true
        · have forces : Forces dialect c := ⟨quoting, isEscape, Or.inl ⟨isQuote, doubles⟩⟩
          rw [if_pos doubles, isQuote] at ok
          obtain rfl := Except.ok.inj ok
          exact ⟨_, .doubled forces isQuote doubles, rfl, iff_of_true rfl (Or.inr forces)⟩
        · have noForce : ¬Forces dialect c := by
            rintro ⟨-, -, ⟨-, twice⟩ | ⟨notQuote, -⟩⟩
            · exact doubles twice
            · exact notQuote isQuote
          rw [if_neg doubles] at ok
          split at ok
          · exact nomatch ok
          · rename_i escape isEscape
            obtain rfl := Except.ok.inj ok
            exact ⟨_, .escaped isEscape, rfl, (or_iff_left noForce).symm⟩
      · rw [if_neg isQuote] at ok
        obtain rfl := Except.ok.inj ok
        refine ⟨_, .plain isEscape isQuote fun none ↦ absurd none quoting, rfl, ?_⟩
        simp [Forces, quoting, isEscape, isQuote]

/-- The field keeps the spaces at its start: the reader skips them in front of a quote, and where they are
not escaped. -/
def KeepsSpaces (dialect : DialectConfig) (quoted : Prop) (text : List Char) : Prop :=
  dialect.skipinitialspace = true →
    (quoted → dialect.quotechar ≠ some ' ') ∧
      (¬quoted → text.head? = some ' ' →
        dialect.delimiter = ' ' ∨ dialect.quotechar = some ' ' ∨ dialect.escapechar = some ' ')

theorem reads_piece (fields : List (List Char)) (distinct : dialect.Distinct) {piece : List Char} (isPiece : Piece dialect c piece)
    (fits : (field.length : ℤ) < limit) :
    Reads dialect limit (inside fields field) piece (inside fields (field ++ [c])) ∧
      ((dialect.quoting = .none ∨ dialect.quoting = .minimal) → ¬Forces dialect c → ∀ start,
        (start = true → dialect.skipinitialspace = true → c = ' ' →
          dialect.delimiter = ' ' ∨ dialect.quotechar = some ' ' ∨ dialect.escapechar = some ' ') →
        Reads dialect limit (unquoted fields field start) piece (unquoted fields (field ++ [c]) false)) := by
  cases isPiece with
  | escaped isEscape =>
    obtain ⟨quoted, bare⟩ := reads_escaped isEscape (distinct.escape_break _ isEscape) fits
    exact ⟨quoted, fun _ _ start _ ↦ bare start⟩
  | doubled forces isQuote doubles =>
    exact ⟨reads_inside_doubled isQuote (distinct.quote_break c isQuote) (distinct.escape_quote c isQuote)
      doubles fits, fun _ noForce ↦ absurd forces noForce⟩
  | plain noEscape noQuote bare =>
    refine ⟨reads_inside_plain noEscape noQuote fits, fun mode noForce start spaces ↦ ?_⟩
    have ordinary : c ≠ dialect.delimiter ∧ ¬IsLineBreak c := by
      by_cases quoting : dialect.quoting = .none
      · exact bare quoting
      · have minimal := mode.resolve_left quoting
        refine ⟨fun isDelimiter ↦ noForce ⟨quoting, noEscape, Or.inr ⟨noQuote, minimal, Or.inl isDelimiter⟩⟩,
          fun isBreak ↦ noForce ⟨quoting, noEscape, Or.inr ⟨noQuote, minimal, Or.inr ?_⟩⟩⟩
        exact isBreak.imp_right Or.inl
    refine reads_unquoted_plain noEscape noQuote ordinary.1 ordinary.2 ?_ fits
    rintro ⟨atStart, skips, rfl⟩
    obtain isDelimiter | isQuote | isEscape := spaces atStart skips rfl
    · exact ordinary.1 isDelimiter.symm
    · exact noQuote isQuote
    · exact noEscape isEscape

theorem reads_body (limit : ℤ) (distinct : dialect.Distinct)
    (ok : text.foldlM (appendChar dialect) before = .ok after) :
    (after.quoted = true ↔ before.quoted = true ∨ ∃ c ∈ text, Forces dialect c) ∧
      ∃ tail, after.body = before.body ++ tail ∧
        ∀ fields field, (text ≠ [] → ((field ++ text).length : ℤ) ≤ limit) →
          Reads dialect limit (inside fields field) tail (inside fields (field ++ text)) ∧
            ((dialect.quoting = .none ∨ dialect.quoting = .minimal) → (∀ c ∈ text, ¬Forces dialect c) →
              ∀ start, (start = true → dialect.skipinitialspace = true → text.head? = some ' ' →
                dialect.delimiter = ' ' ∨ dialect.quotechar = some ' ' ∨ dialect.escapechar = some ' ') →
              Reads dialect limit (unquoted fields field start) tail
                (unquoted fields (field ++ text) (start && text.isEmpty))) := by
  induction text generalizing before with
  | nil =>
    obtain rfl := Except.ok.inj ok
    refine ⟨by simp, [], (List.append_nil _).symm, fun fields field _ ↦ ?_⟩
    rw [List.append_nil]
    refine ⟨.refl _, fun _ _ start _ ↦ ?_⟩
    rw [List.isEmpty_nil, Bool.and_true]
    exact .refl _
  | cons c text ih =>
    rw [List.foldlM_cons] at ok
    cases next : appendChar dialect before c with
    | error message =>
      rw [next] at ok
      exact nomatch ok
    | ok writing =>
      rw [next] at ok
      obtain ⟨piece, isPiece, body, quoted⟩ := appendChar_piece next
      obtain ⟨laterQuoted, tail, laterBody, later⟩ := ih ok
      refine ⟨?_, piece ++ tail, ?_, fun fields field fits ↦ ?_⟩
      · rw [laterQuoted, quoted]
        simp [or_assoc]
      · rw [laterBody, body, List.append_assoc]
      · have bound : ((field ++ c :: text).length : ℤ) ≤ limit := fits nofun
        have first : (field.length : ℤ) < limit := by
          rw [List.length_append, List.length_cons] at bound
          omega
        have split : field ++ c :: text = field ++ [c] ++ text := List.append_cons _ _ _
        obtain ⟨inQuotes, bare⟩ := reads_piece fields distinct isPiece first
        rw [split] at bound ⊢
        obtain ⟨inQuotes', bare'⟩ := later fields (field ++ [c]) fun _ ↦ bound
        refine ⟨inQuotes.trans inQuotes', fun mode noForce start spaces ↦ ?_⟩
        obtain ⟨noForce, noForces⟩ := List.forall_mem_cons.mp noForce
        have start' := bare mode noForce start fun atStart skips isSpace ↦
          spaces atStart skips (congrArg some isSpace)
        have rest := bare' mode noForces false nofun
        rw [List.isEmpty_cons, Bool.and_false]
        exact start'.trans rest

/-! ## Records -/

/-- Whether a string is written in quotes. -/
def WritesQuotes (dialect : DialectConfig) (text : List Char) : Prop :=
  dialect.quoting.quotes (.str text) = true ∨ ∃ c ∈ text, Forces dialect c

/-- At the end of a field, in front of its closing quote if it has one: a delimiter leads to the next field,
and a terminator ends the record. -/
structure FieldEnd (dialect : DialectConfig) (limit : ℤ) (reading : Reading) (closing : List Char)
    (record : List (List Char)) : Prop where
  next : Reads dialect limit reading (closing ++ [dialect.delimiter]) (unquoted record [] true)
  last : record ≠ [[]] ∨ closing ≠ [] → ∀ terminator, Terminator terminator →
    ∀ hasData lineBreak position items, position.At (closing ++ terminator) →
      readFrom dialect limit (reading.flags hasData lineBreak) position items =
        (.ok (some record), items, position.last)

theorem last_singleton {line : List Char} {lineNum : ℕ} (bound : lineNum ≤ 2 ^ 64 - 1) :
    Position.last ⟨[line], lineNum⟩ = lineNum := min_eq_left bound

variable (distinct : dialect.Distinct)
include distinct

theorem fieldEnd_unquoted (start : Bool) :
    FieldEnd dialect limit (unquoted fields field start) [] (fields ++ [field]) := by
  refine ⟨reads_delimiter distinct, ?_⟩
  rintro ordinary terminator isTerminator hasData lineBreak ⟨lines, lineNum⟩ items ⟨cut, bound⟩
  obtain rfl : lines = [terminator] := cut.terminator isTerminator
  obtain ⟨c, rest, rfl, isBreak⟩ := isTerminator.cons
  have noEscape : dialect.escapechar ≠ some c := fun isEscape ↦ distinct.escape_break c isEscape isBreak
  have noDelimiter : c ≠ dialect.delimiter := fun same ↦ distinct.delimiter_break (same ▸ isBreak)
  have isBreaks : c = '\r' ∨ c = '\n' := isBreak
  have record : ((unquoted fields field start).flags hasData lineBreak).record = fields ++ [field] := by
    refine if_neg fun blank ↦ ?_
    have parts : (hasData = false ∧ fields = []) ∧ field = [] := by
      simpa [Reading.blank, Reading.flags, unquoted] using blank
    obtain ⟨⟨-, rfl⟩, rfl⟩ := parts
    exact ordinary.elim (fun other ↦ other rfl) (fun other ↦ other rfl)
  have returned : readChars dialect limit ((unquoted fields field start).flags hasData lineBreak) (c :: rest) =
      .returned (fields ++ [field]) := by
    rw [← record]
    simp [readChars, Reading.flags, unquoted, noEscape, noDelimiter, isBreaks]
  change resume dialect limit (readChars dialect limit _ (c :: rest)) _ lineNum = _
  rw [returned, last_singleton bound]
  rfl

theorem fieldEnd_inside (isQuote : dialect.quotechar = some c) :
    FieldEnd dialect limit (inside fields field) [c] (fields ++ [field]) := by
  refine ⟨reads_close distinct isQuote, ?_⟩
  rintro - terminator isTerminator hasData lineBreak ⟨lines, lineNum⟩ items ⟨cut, bound⟩
  obtain ⟨d, rest, isCons, isBreak⟩ := isTerminator.cons
  have quoteBreak := distinct.quote_break c isQuote
  obtain ⟨line, others, isLines, ⟨-, later⟩ | ⟨-, -, together⟩⟩ := cut.advance
  · obtain ⟨rfl, rfl⟩ := List.cons.inj (later.terminator isTerminator)
    obtain rfl : lines = [c :: line] := isLines
    subst isCons
    have noEscape := distinct.escape_quote c isQuote
    have noEscape' : dialect.escapechar ≠ some d := fun isEscape ↦ distinct.escape_break d isEscape isBreak
    have noDelimiter : d ≠ dialect.delimiter := fun same ↦ distinct.delimiter_break (same ▸ isBreak)
    have noQuote : d ≠ c := fun same ↦ quoteBreak (same ▸ isBreak)
    have isBreaks : d = '\r' ∨ d = '\n' := isBreak
    have returned : readChars dialect limit ((inside fields field).flags hasData lineBreak) (c :: d :: rest) =
        .returned (fields ++ [field]) := by
      simp [readChars, Reading.flags, inside, noEscape, noEscape', isQuote, noDelimiter, noQuote, isBreaks]
    change resume dialect limit (readChars dialect limit _ (c :: d :: rest)) _ lineNum = _
    rw [returned, last_singleton bound]
    rfl
  · exact absurd (together (isCons ▸ List.cons_ne_nil d rest)).1 quoteBreak

/-- A string that is written is read up to its end. -/
theorem appendField_reads (ok : appendField out dialect (.str text) rowLen = .ok result)
    (fits : text ≠ [] → (text.length : ℤ) ≤ limit)
    (spaces : KeepsSpaces dialect (WritesQuotes dialect text) text) :
    ∃ body closing, result = out ++ (body ++ closing) ∧ (text = [] ∧ rowLen = 1 → closing ≠ []) ∧
      ∀ fields, ∃ reading, Reads dialect limit (unquoted fields [] true) body reading ∧
        FieldEnd dialect limit reading closing (fields ++ [text]) := by
  unfold appendField at ok
  change (if _ then _ else _) = _ at ok
  by_cases single : text = [] ∧ rowLen = 1 ∧ dialect.quoting.quotes (.str text) = false
  · rw [if_pos single] at ok
    exact nomatch ok
  have initial : (if text = [] ∧ rowLen = 1 then true else dialect.quoting.quotes (.str text)) =
      dialect.quoting.quotes (.str text) := by
    split_ifs with isEmpty
    · exact (Bool.eq_true_of_not_eq_false fun bare ↦ single ⟨isEmpty.1, isEmpty.2, bare⟩).symm
    · rfl
  rw [if_neg single] at ok
  change (List.foldlM (appendChar dialect) ⟨[], if _ then _ else _⟩ text >>= _) = _ at ok
  rw [initial] at ok
  cases folded : text.foldlM (appendChar dialect) { quoted := dialect.quoting.quotes (.str text) } with
  | error message =>
    rw [folded] at ok
    exact nomatch ok
  | ok writing =>
    rw [folded] at ok
    change (if _ then _ else _) = _ at ok
    obtain ⟨writes, body, isBody, reads⟩ := reads_body limit distinct folded
    rw [List.nil_append] at isBody
    change writing.quoted = true ↔ WritesQuotes dialect text at writes
    by_cases quoted : writing.quoted = true
    · rw [if_pos quoted] at ok
      split at ok
      · exact nomatch ok
      · rename_i quote isQuote
        have quoting : dialect.quoting ≠ .none := by
          obtain mode | ⟨c, -, forces⟩ := writes.mp quoted
          · intro none
            rw [none] at mode
            exact nomatch mode
          · exact forces.1
        refine ⟨quote :: body, [quote], ?_, fun _ ↦ nofun, fun fields ↦ ⟨inside fields text, ?_, ?_⟩⟩
        · rw [← Except.ok.inj ok, isBody, List.append_assoc, List.append_assoc]
          rfl
        · have opens : Reads dialect limit (unquoted fields [] true) [quote] (inside fields []) := by
            refine reads_open isQuote (distinct.quote_break quote isQuote)
              (fun same ↦ distinct.quote_delimiter (same ▸ isQuote)) (distinct.escape_quote quote isQuote)
              quoting ?_
            rintro ⟨skips, rfl⟩
            exact (spaces skips).1 (writes.mp quoted) isQuote
          exact opens.trans (reads fields [] fits).1
        · exact fieldEnd_inside distinct isQuote
    · rw [if_neg quoted] at ok
      have bare : ¬WritesQuotes dialect text := fun quotes ↦ quoted (writes.mpr quotes)
      have mode : dialect.quoting = .none ∨ dialect.quoting = .minimal := by
        have initially : dialect.quoting.quotes (.str text) ≠ true := fun quotes ↦ bare (Or.inl quotes)
        cases mode : dialect.quoting with
        | none => exact Or.inl rfl
        | minimal => exact Or.inr rfl
        | all | nonnumeric | strings | notnull =>
          rw [mode] at initially
          exact absurd rfl initially
      have unforced : ∀ c ∈ text, ¬Forces dialect c := fun c member forces ↦ bare (Or.inr ⟨c, member, forces⟩)
      refine ⟨body, [], ?_, fun isEmpty ↦ ?_, fun fields ↦
        ⟨unquoted fields text (true && text.isEmpty), ?_, ?_⟩⟩
      · rw [← Except.ok.inj ok, isBody, List.append_nil]
      · have quotes : dialect.quoting.quotes (.str text) = true :=
          Bool.eq_true_of_not_eq_false fun initially ↦ single ⟨isEmpty.1, isEmpty.2, initially⟩
        exact absurd (Or.inl quotes) bare
      · exact (reads fields [] fits).2 mode unforced true fun _ skips isSpace ↦ (spaces skips).2 bare isSpace
      · exact fieldEnd_unquoted distinct _

theorem reads_fields
    (isTerminator : Terminator dialect.lineterminator) {row : List (List Char)} {index : ℕ}
    (later : 0 < index)
    (ok : ((row.map .str).zipIdx index).foldlM (renderFields dialect rowLen) out = .ok result)
    (fits : ∀ text ∈ row, text ≠ [] → (text.length : ℤ) ≤ limit)
    (spaces : ∀ text ∈ row, KeepsSpaces dialect (WritesQuotes dialect text) text)
    {reading : Reading} {closing : List Char} {record : List (List Char)}
    (fieldEnd : FieldEnd dialect limit reading closing record)
    (ordinary : row = [] → record ≠ [[]] ∨ closing ≠ []) (nonempty : record ≠ []) :
    ∃ tail, result = out ++ tail ∧ ∀ hasData lineBreak position items,
      position.At (closing ++ tail ++ dialect.lineterminator) →
        readFrom dialect limit (reading.flags hasData lineBreak) position items =
          (.ok (some (record ++ row)), items, position.last) := by
  induction row generalizing index out reading closing record with
  | nil =>
    obtain rfl := Except.ok.inj ok
    refine ⟨[], (List.append_nil _).symm, fun hasData lineBreak position items at_ ↦ ?_⟩
    rw [List.append_nil] at at_ ⊢
    exact fieldEnd.last (ordinary rfl) _ isTerminator hasData lineBreak position items at_
  | cons text row ih =>
    obtain ⟨fit, fits⟩ := List.forall_mem_cons.mp fits
    obtain ⟨space, spaces⟩ := List.forall_mem_cons.mp spaces
    rw [List.map_cons, List.zipIdx_cons, List.foldlM_cons] at ok
    cases field : renderFields dialect rowLen out (.str text, index) with
    | error message =>
      rw [field] at ok
      exact nomatch ok
    | ok middle =>
      rw [field] at ok
      rw [renderFields, if_pos later] at field
      obtain ⟨body, closing', isMiddle, -, fieldReads⟩ := appendField_reads distinct field fit space
      obtain ⟨reading', reads, fieldEnd'⟩ := fieldReads record
      have ordinary' : row = [] → record ++ [text] ≠ [[]] ∨ closing' ≠ [] := by
        refine fun _ ↦ Or.inl fun same ↦ nonempty ?_
        have lengths := congrArg List.length same
        rw [List.length_append] at lengths
        exact List.length_eq_zero_iff.mp (Nat.succ.inj lengths)
      obtain ⟨tail, isResult, rest⟩ := ih (Nat.succ_pos index) ok fits spaces fieldEnd' ordinary'
        (List.append_ne_nil_of_right_ne_nil _ nofun)
      refine ⟨[dialect.delimiter] ++ body ++ closing' ++ tail, ?_, fun hasData lineBreak position items at_ ↦ ?_⟩
      · rw [isResult, isMiddle]
        simp only [List.append_assoc]
      · have split : closing ++ ([dialect.delimiter] ++ body ++ closing' ++ tail) ++ dialect.lineterminator =
            closing ++ [dialect.delimiter] ++ body ++ (closing' ++ tail ++ dialect.lineterminator) := by
          simp only [List.append_assoc]
        rw [split] at at_
        obtain ⟨c, others, isCons, -⟩ := isTerminator.cons
        have more : closing' ++ tail ++ dialect.lineterminator ≠ [] :=
          List.append_ne_nil_of_right_ne_nil _ (isCons ▸ nofun)
        obtain ⟨hasData', lineBreak', position', at', last, read⟩ :=
          (fieldEnd.next.trans reads) _ hasData lineBreak position items more at_
        rw [read, rest hasData' lineBreak' position' items at', last, List.append_assoc]
        rfl

end Read

/-! ## Round trip -/

/-- What is written of a row is read again, from the lines of the text, and nothing else is read. -/
def RoundTrips (dialect : DialectConfig) (limit : ℤ) (row : List (List Char)) : Prop :=
  ∀ text lines items lineNum, renderRecord dialect (row.map .str) = .ok text → LinesOf text lines →
    readRecord limit { items := lines.map .text ++ items, dialect, lineNum } =
      (.ok (some row), { items, dialect, lineNum := min (lineNum + lines.length) (2 ^ 64 - 1) })

variable {dialect : DialectConfig}

variable {row : List (List Char)}

theorem roundTrips (distinct : dialect.Distinct) (nonempty : row ≠ [])
    (isTerminator : Terminator dialect.lineterminator) {limit : ℤ}
    (fits : ∀ text ∈ row, text ≠ [] → (text.length : ℤ) ≤ limit)
    (spaces : ∀ text ∈ row, KeepsSpaces dialect (WritesQuotes dialect text) text) :
    RoundTrips dialect limit row := by
  intro text lines items lineNum ok cut
  obtain _ | ⟨first, row⟩ := row
  · exact absurd rfl nonempty
  obtain ⟨fit, fits⟩ := List.forall_mem_cons.mp fits
  obtain ⟨space, spaces⟩ := List.forall_mem_cons.mp spaces
  rw [renderRecord, List.map_cons, List.zipIdx_cons, List.foldlM_cons] at ok
  cases field : renderFields dialect (Field.str first :: row.map .str).length [] (.str first, 0) with
  | error message =>
    rw [field] at ok
    exact nomatch ok
  | ok middle =>
    rw [field] at ok
    change (List.foldlM _ middle _ >>= _) = _ at ok
    cases rendered : ((row.map Field.str).zipIdx (0 + 1)).foldlM
        (renderFields dialect (Field.str first :: row.map .str).length) middle with
    | error message =>
      rw [rendered] at ok
      exact nomatch ok
    | ok result =>
      rw [rendered] at ok
      obtain rfl : result ++ dialect.lineterminator = text := Except.ok.inj ok
      rw [renderFields, if_neg (Nat.lt_irrefl 0)] at field
      obtain ⟨body, closing, isMiddle, single, fieldReads⟩ := appendField_reads distinct field fit space
      obtain ⟨reading, reads, fieldEnd⟩ := fieldReads []
      have ordinary : row = [] → [] ++ [first] ≠ [[]] ∨ closing ≠ [] := by
        rintro rfl
        by_cases isEmpty : first = []
        · exact Or.inr (single ⟨isEmpty, rfl⟩)
        · exact Or.inl fun same ↦ isEmpty (List.cons.inj same).1
      obtain ⟨tail, isResult, rest⟩ := reads_fields distinct isTerminator Nat.one_pos rendered fits spaces
        fieldEnd ordinary nofun
      have split : result ++ dialect.lineterminator = body ++ (closing ++ tail ++ dialect.lineterminator) := by
        rw [isResult, isMiddle]
        simp only [List.nil_append, List.append_assoc]
      rw [split] at cut
      obtain ⟨c, others, isCons, -⟩ := isTerminator.cons
      have more : closing ++ tail ++ dialect.lineterminator ≠ [] :=
        List.append_ne_nil_of_right_ne_nil _ (isCons ▸ nofun)
      obtain _ | ⟨line, lines⟩ := lines
      · exact absurd cut.join.symm (List.append_ne_nil_of_right_ne_nil _ more)
      obtain ⟨hasData, lineBreak, position, at_, last, read⟩ :=
        reads _ false false ⟨line :: lines, saturatingSucc lineNum⟩ items more ⟨cut, min_le_right _ _⟩
      have start : readItems dialect limit {} ((line :: lines).map .text ++ items) lineNum =
          readFrom dialect limit ((unquoted [] [] true).flags false false)
            ⟨line :: lines, saturatingSucc lineNum⟩ items :=
        readItems_text dialect limit (cut.nonempty line List.mem_cons_self) _ _ _
      have isLast : position.last = min (lineNum + (line :: lines).length) (2 ^ 64 - 1) := by
        rw [last]
        change min (min (lineNum + 1) (2 ^ 64 - 1) + lines.length) (2 ^ 64 - 1) =
          min (lineNum + (lines.length + 1)) (2 ^ 64 - 1)
        omega
      rw [readRecord]
      dsimp only
      rw [start, read, rest hasData lineBreak position items at_, isLast]
      rfl

/-! ## Writing -/

theorem appendChar_succeeds (quoting : dialect.quoting ≠ .none)
    (doubles : dialect.doublequote = true) (writing : Writing) (c : Char) :
    ∃ next, appendChar dialect writing c = .ok next := by
  unfold appendChar
  dsimp only
  rw [if_neg quoting]
  by_cases isEscape : dialect.escapechar = some c
  · rw [if_pos isEscape, isEscape]
    exact ⟨_, rfl⟩
  · rw [if_neg isEscape]
    by_cases isQuote : dialect.quotechar = some c
    · rw [if_pos isQuote, if_pos doubles, isQuote]
      exact ⟨_, rfl⟩
    · rw [if_neg isQuote]
      exact ⟨_, rfl⟩

theorem foldlM_appendChar_succeeds (quoting : dialect.quoting ≠ .none)
    (doubles : dialect.doublequote = true) (text : List Char) (writing : Writing) :
    ∃ next, text.foldlM (appendChar dialect) writing = .ok next := by
  induction text generalizing writing with
  | nil => exact ⟨writing, rfl⟩
  | cons c text ih =>
    obtain ⟨next, appended⟩ := appendChar_succeeds quoting doubles writing c
    obtain ⟨last, rest⟩ := ih next
    refine ⟨last, ?_⟩
    rw [List.foldlM_cons, appended]
    exact rest

section

variable (valid : validateDialect dialect = .ok ()) (quoting : dialect.quoting ≠ .none)
  (doubles : dialect.doublequote = true)
include valid quoting doubles

theorem appendField_succeeds  {text : List Char}
    {rowLen : ℕ} (quoted : dialect.quoting = .minimal → ¬(text = [] ∧ rowLen = 1)) (out : List Char) :
    ∃ result, appendField out dialect (.str text) rowLen = .ok result := by
  have named : ∃ quote, dialect.quotechar = some quote := by
    refine Option.ne_none_iff_exists'.mp fun missing ↦ ?_
    rw [validateDialect, if_pos ⟨quoting, missing⟩] at valid
    exact nomatch valid
  obtain ⟨quote, isQuote⟩ := named
  have notSingle : ¬(text = [] ∧ rowLen = 1 ∧ dialect.quoting.quotes (.str text) = false) := by
    rintro ⟨isEmpty, isOne, bare⟩
    cases mode : dialect.quoting with
    | none => exact quoting mode
    | minimal => exact quoted mode ⟨isEmpty, isOne⟩
    | all | nonnumeric | strings | notnull =>
      rw [mode] at bare
      exact nomatch bare
  obtain ⟨writing, folded⟩ := foldlM_appendChar_succeeds quoting doubles text
    ⟨[], if text = [] ∧ rowLen = 1 then true else dialect.quoting.quotes (.str text)⟩
  cases result : appendField out dialect (.str text) rowLen with
  | ok written => exact ⟨written, rfl⟩
  | error message =>
    unfold appendField at result
    change (if _ then _ else _) = _ at result
    rw [if_neg notSingle] at result
    change (List.foldlM (appendChar dialect) _ text >>= _) = _ at result
    rw [folded] at result
    change (if _ then _ else _) = _ at result
    rw [isQuote] at result
    split_ifs at result

theorem renderRecord_succeeds

    (notSingle : dialect.quoting = .minimal → row ≠ [[]]) :
    ∃ text, renderRecord dialect (row.map .str) = .ok text := by
  have fields (rest : List (List Char)) (quoted : dialect.quoting = .minimal → ∀ text ∈ rest,
      ¬(text = [] ∧ (row.map Field.str).length = 1)) (index : ℕ) (out : List Char) :
      ∃ result, ((rest.map Field.str).zipIdx index).foldlM
        (renderFields dialect (row.map Field.str).length) out = .ok result := by
    induction rest generalizing index out with
    | nil => exact ⟨out, rfl⟩
    | cons text rest ih =>
      obtain ⟨middle, appended⟩ := appendField_succeeds valid quoting doubles
        (fun minimal ↦ quoted minimal text List.mem_cons_self)
        (if index > 0 then out ++ [dialect.delimiter] else out)
      obtain ⟨result, later⟩ := ih (fun minimal other member ↦
        quoted minimal other (List.mem_cons_of_mem _ member)) (index + 1) middle
      refine ⟨result, ?_⟩
      rw [List.map_cons, List.zipIdx_cons, List.foldlM_cons, renderFields, appended]
      exact later
  have quoted : dialect.quoting = .minimal → ∀ text ∈ row,
      ¬(text = [] ∧ (row.map Field.str).length = 1) := by
    rintro minimal text member ⟨rfl, isOne⟩
    rw [List.length_map] at isOne
    obtain ⟨only, rfl⟩ := List.length_eq_one_iff.mp isOne
    obtain rfl := List.mem_singleton.mp member
    exact notSingle minimal rfl
  obtain ⟨result, ok⟩ := fields row quoted 0 []
  refine ⟨result ++ dialect.lineterminator, ?_⟩
  rw [renderRecord, ok]
  rfl

end

/-! ## Both -/

/-- A row of strings is written and read again where the terminator is a line break, the fields are within
the limit and their initial spaces are kept. With doubled quotes it is written in every mode that quotes. -/
theorem csv_round_trip {dialect : DialectConfig} (valid : validateDialect dialect = .ok ())
    (distinct : dialect.Distinct) {row : List (List Char)} (nonempty : row ≠ []) :
    (Terminator dialect.lineterminator → ∀ limit : ℤ,
      (∀ field ∈ row, field ≠ [] → (field.length : ℤ) ≤ limit) →
      (∀ field ∈ row, KeepsSpaces dialect (WritesQuotes dialect field) field) →
      RoundTrips dialect limit row) ∧
      (dialect.quoting ≠ .none → dialect.doublequote = true → (dialect.quoting = .minimal → row ≠ [[]]) →
        ∃ text, renderRecord dialect (row.map .str) = .ok text) := by
  refine ⟨fun isTerminator limit fits spaces ↦ ?_, fun quoting doubles notSingle ↦ ?_⟩
  · exact roundTrips distinct nonempty isTerminator fits spaces
  · exact renderRecord_succeeds valid quoting doubles notSingle

theorem distinct_default : DialectConfig.Distinct {} := by
  refine ⟨by decide, nofun, fun _ _ ↦ nofun, ?_, fun c isQuote ↦ ?_, nofun⟩
  · unfold IsLineBreak
    decide
  · obtain rfl := Option.some.inj isQuote
    unfold IsLineBreak
    decide

/-- The default dialect and a row with a quote, a delimiter and a line break. -/
theorem csv_round_trip_default :
    (Terminator ['\r', '\n'] → ∀ limit : ℤ,
      (∀ field ∈ ["a\"b".toList, "c,\n".toList, []], field ≠ [] → (field.length : ℤ) ≤ limit) →
      (∀ field ∈ ["a\"b".toList, "c,\n".toList, []], KeepsSpaces {} (WritesQuotes {} field) field) →
      RoundTrips {} limit ["a\"b".toList, "c,\n".toList, []]) ∧
      (Quoting.minimal ≠ .none → true = true →
        (Quoting.minimal = .minimal → ["a\"b".toList, "c,\n".toList, []] ≠ [[]]) →
        ∃ text, renderRecord {} (["a\"b".toList, "c,\n".toList, []].map .str) = .ok text) :=
  @csv_round_trip {} validateDialect_default distinct_default _ nofun

/-- A terminator that is no line break is read as part of the last field. -/
theorem terminator_read : ¬RoundTrips { lineterminator := ['x'] } 131072 [['a']] := by
  intro roundTrips
  have cut : LinesOf ['a', 'x'] [['a', 'x']] := linesOf_textLines ['a', 'x']
  have read := roundTrips ['a', 'x'] [['a', 'x']] [] 0 rfl cut
  simp [readRecord, readItems, readChars, pushReaderChar, Reading.record, Reading.blank] at read

end Pon.Csv
