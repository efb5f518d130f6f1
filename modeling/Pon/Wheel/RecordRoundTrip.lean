import Pon.Wheel.Record

/-!
# The RECORD round trip

The writer quotes a field that holds a comma, a quote or a line break, so that the reader gives the
field back. The reader takes the text apart into lines first: the line of a row ends at the first line
feed of the row, inside the quotes. What is written is read back exactly where no field holds one.
-/

namespace Pon.Wheel

open Package

/-- The doubled quotes of a quoted field. -/
def escapeQuotes (field : Text) : Text :=
  field.flatMap fun c ↦ if c = '"' then ['"', '"'] else [c]

def Quoted (field : Text) : Prop := ∃ c ∈ field, c = ',' ∨ c = '"' ∨ c = '\n' ∨ c = '\r'

variable {field : Text} {entry : RecordEntry}

theorem csvField_of_quoted (h : Quoted field) :
    csvField field = '"' :: escapeQuotes field ++ ['"'] := by
  refine if_pos ?_
  obtain ⟨c, mem, special⟩ := h
  exact List.any_eq_true.mpr ⟨c, mem, decide_eq_true special⟩

theorem csvField_of_not_quoted (h : ¬Quoted field) : csvField field = field := by
  refine if_neg fun special ↦ h ?_
  obtain ⟨c, mem, special⟩ := List.any_eq_true.mp special
  exact ⟨c, mem, of_decide_eq_true special⟩

theorem csvFields_open (field rest : Text) :
    csvFields false field ('"' :: rest) = csvFields true field rest := by
  cases rest with
  | nil => rfl
  | cons c rest =>
    by_cases isQuote : c = '"'
    · subst isQuote
      rfl
    · simp [csvFields, isQuote]

theorem csvFields_close (field : Text) {rest : Text} (h : rest.head? ≠ some '"') :
    csvFields true field ('"' :: rest) = csvFields false field rest := by
  cases rest with
  | nil => rfl
  | cons c rest =>
    have notQuote : c ≠ '"' := fun isQuote ↦ h (congrArg some isQuote)
    simp [csvFields, notQuote]

theorem csvFields_char {quoted : Bool} (field : Text) {c : Char} (rest : Text) (notQuote : c ≠ '"')
    (h : quoted = true ∨ c ≠ ',') :
    csvFields quoted field (c :: rest) = csvFields quoted (field ++ [c]) rest := by
  by_cases isComma : c = ','
  · have inside := h.resolve_right fun notComma ↦ notComma isComma
    rw [isComma, inside]
    rfl
  · rw [csvFields]
    · exact fun _ isQuote _ ↦ notQuote isQuote
    · exact notQuote
    · exact isComma

theorem csvFields_plain {text : Text} (h : ¬Quoted text) (field rest : Text) :
    csvFields false field (text ++ rest) = csvFields false (field ++ text) rest := by
  induction text generalizing field with
  | nil => rw [List.nil_append, List.append_nil]
  | cons c text ih =>
    have plain : ∀ other ∈ c :: text, other ≠ ',' ∧ other ≠ '"' := fun other mem ↦
      ⟨fun isComma ↦ h ⟨other, mem, Or.inl isComma⟩, fun isQuote ↦ h ⟨other, mem, Or.inr (Or.inl isQuote)⟩⟩
    have plainRest : ¬Quoted text := by
      intro quoted
      obtain ⟨other, mem, special⟩ := quoted
      exact h ⟨other, List.mem_cons_of_mem c mem, special⟩
    obtain ⟨notComma, notQuote⟩ := plain c List.mem_cons_self
    rw [List.cons_append, csvFields_char field _ notQuote (Or.inr notComma), ih plainRest,
      List.append_assoc, List.singleton_append]

theorem csvFields_escapeQuotes (text field rest : Text) :
    csvFields true field (escapeQuotes text ++ rest) = csvFields true (field ++ text) rest := by
  induction text generalizing field with
  | nil => rw [escapeQuotes, List.flatMap_nil, List.nil_append, List.append_nil]
  | cons c text ih =>
    have next := ih (field ++ [c])
    rw [List.append_assoc, List.singleton_append] at next
    rw [← next]
    by_cases isQuote : c = '"'
    · subst isQuote
      rfl
    · rw [escapeQuotes, List.flatMap_cons, if_neg isQuote]
      exact csvFields_char field _ isQuote (Or.inl rfl)

/-- A quoted part that does not end is refused. -/
theorem csvFields_unterminated (text field : Text) :
    csvFields true field (escapeQuotes text) = .error "unterminated quoted field".toList := by
  have all := csvFields_escapeQuotes text field []
  rw [List.append_nil] at all
  exact all

/-- The reader gives a written field back. -/
theorem csvFields_csvField (field : Text) {rest : Text} (h : rest.head? ≠ some '"') :
    csvFields false [] (csvField field ++ rest) = csvFields false field rest := by
  by_cases quoted : Quoted field
  · rw [csvField_of_quoted quoted, List.append_assoc, List.cons_append, csvFields_open,
      csvFields_escapeQuotes, List.singleton_append, csvFields_close _ h, List.nil_append]
  · rw [csvField_of_not_quoted quoted, csvFields_plain quoted, List.nil_append]

theorem csvField_cons (field rest : Text) :
    csvFields false [] (csvField field ++ ',' :: rest) =
      (csvFields false [] rest).map fun fields ↦ field :: fields := by
  rw [csvFields_csvField field (by simp)]
  cases h : csvFields false [] rest <;> simp [csvFields, h] <;> rfl

/-- The rows that the writer is given: no empty path or hash, sizes of 64 bits, and no hash or size of
the RECORD itself. -/
structure RecordEntry.Valid (entry : RecordEntry) : Prop where
  path : entry.path ≠ []
  hash : entry.hash ≠ some []
  size : ∀ size, entry.size = some size → size < u64Bound
  self : isRecordSelfEntry entry.path = true → entry.hash = none ∧ entry.size = none

/-- No line feed stands in the path or the hash of an entry. -/
def RecordEntry.OneLine (entry : RecordEntry) : Prop :=
  '\n' ∉ entry.path ∧ ∀ hash, entry.hash = some hash → '\n' ∉ hash

/-- A row without its line feed. -/
def RecordEntry.line (entry : RecordEntry) : Text :=
  csvField entry.path ++ ',' :: csvField (entry.hash.getD []) ++ ',' :: (entry.size.map decimal).getD []

theorem recordRow_eq (h : entry.Valid) : recordRow entry = entry.line ++ ['\n'] := by
  have empty : csvField [] = [] := rfl
  unfold recordRow RecordEntry.line
  by_cases isSelf : isRecordSelfEntry entry.path = true
  · obtain ⟨hash, size⟩ := h.self isSelf
    simp [isSelf, hash, size, empty]
  · cases hash : entry.hash <;> simp [isSelf, empty]

theorem csvFields_size (size : Option ℕ) :
    csvFields false [] ((size.map decimal).getD []) = .ok [(size.map decimal).getD []] := by
  cases size with
  | none => rfl
  | some size =>
    have plain : ¬Quoted (decimal size) := by
      intro quoted
      obtain ⟨c, mem, special⟩ := quoted
      have isDigit := isDigit_of_mem_decimal mem
      obtain rfl | rfl | rfl | rfl := special <;> cases isDigit
    have all := csvFields_plain plain [] []
    rw [List.append_nil, List.nil_append] at all
    exact all

theorem parseCsvLine_line (entry : RecordEntry) : parseCsvLine entry.line =
    .ok [entry.path, entry.hash.getD [], (entry.size.map decimal).getD []] := by
  rw [parseCsvLine, RecordEntry.line, List.append_assoc, List.cons_append, csvField_cons, csvField_cons,
    csvFields_size]
  rfl

theorem parseRow_line (h : entry.Valid) (label : Text) (number : ℕ) :
    parseRow label number entry.line = .ok entry := by
  obtain ⟨path, hash, size⟩ := entry
  have hashRead : (if hash.getD [] = [] then none else some (hash.getD [])) = hash := by
    cases hash with
    | none => rfl
    | some hash => exact if_neg fun empty ↦ h.hash (congrArg some empty)
  have fields : (parseCsvLine (RecordEntry.line ⟨path, hash, size⟩)).mapError
      (invalidRecordLine label number) = .ok [path, hash.getD [], (size.map decimal).getD []] := by
    rw [parseCsvLine_line]
    rfl
  unfold parseRow
  rw [fields]
  simp only [bind, Except.bind, if_neg h.path, hashRead]
  cases size with
  | none => exact if_pos rfl
  | some size =>
    have digits : decimal size ≠ [] := Nat.toDigits_ne_nil
    simp only [Option.map_some, Option.getD_some, if_neg digits,
      parseUnsigned_decimal (h.size size rfl)]
    rfl

theorem newline_mem_escapeQuotes : '\n' ∈ escapeQuotes field ↔ '\n' ∈ field := by
  have kept : ∀ c : Char, '\n' ∈ (if c = '"' then ['"', '"'] else [c]) ↔ c = '\n' := by
    intro c
    by_cases isQuote : c = '"'
    · subst isQuote
      decide
    · rw [if_neg isQuote, List.mem_singleton, eq_comm]
  simp [escapeQuotes, List.mem_flatMap, kept]

theorem newline_mem_csvField : '\n' ∈ csvField field ↔ '\n' ∈ field := by
  by_cases quoted : Quoted field
  · simp [csvField_of_quoted quoted, newline_mem_escapeQuotes]
  · rw [csvField_of_not_quoted quoted]

theorem RecordEntry.OneLine.newline_not_mem (h : entry.OneLine) : '\n' ∉ entry.line := by
  have hash : '\n' ∉ entry.hash.getD [] := by
    cases found : entry.hash with
    | none => exact List.not_mem_nil
    | some hash => exact h.2 hash found
  have size : '\n' ∉ (entry.size.map decimal).getD [] := by
    cases entry.size with
    | none => exact List.not_mem_nil
    | some size => exact fun mem ↦ absurd (isDigit_of_mem_decimal mem) (by decide)
  simp [RecordEntry.line, newline_mem_csvField, h.1, hash, size]

/-- A row ends with a comma or a digit. -/
theorem chomp_line (entry : RecordEntry) : chomp entry.line = entry.line := by
  rw [RecordEntry.line, chomp_append (List.cons_ne_nil _ _)]
  congr 1
  apply chomp_eq_self
  cases entry.size with
  | none => decide
  | some size =>
    intro last
    have mem : '\r' ∈ decimal size := by
      have digits : decimal size ≠ [] := Nat.toDigits_ne_nil
      rw [Option.map_some, Option.getD_some, List.getLast?_cons_of_ne_nil digits] at last
      exact List.mem_of_getLast? last
    exact absurd (isDigit_of_mem_decimal mem) (by decide)

/-- The end of a line in an open quoted part takes a carriage return of the part with it. -/
theorem chomp_open (front before : Text) : ∃ kept : Text,
    chomp (front ++ '"' :: escapeQuotes before) = front ++ '"' :: escapeQuotes kept := by
  induction before using List.reverseRecOn with
  | nil => exact ⟨[], by rw [chomp_append (List.cons_ne_nil _ _)]; rfl⟩
  | append_singleton before c _ =>
    let piece : Text := if c = '"' then ['"', '"'] else [c]
    have split : front ++ '"' :: escapeQuotes (before ++ [c]) =
        front ++ '"' :: escapeQuotes before ++ piece := by
      simp [escapeQuotes, piece]
    have nonempty : piece ≠ [] := by
      by_cases isQuote : c = '"' <;> simp [piece, isQuote]
    rw [split, chomp_append nonempty]
    by_cases isReturn : c = '\r'
    · refine ⟨before, ?_⟩
      have gone : chomp piece = [] := by
        simp only [piece, isReturn]
        rfl
      rw [gone, List.append_nil]
    · refine ⟨before ++ [c], ?_⟩
      have kept : chomp piece = piece := by
        apply chomp_eq_self
        by_cases isQuote : c = '"' <;> simp [piece, isQuote, isReturn]
      rw [kept, split]

/-- A row with a line feed is cut inside the quotes around it. -/
theorem RecordEntry.line_cut (h : ¬entry.OneLine) : ∃ front before back : Text,
    entry.line = front ++ '"' :: escapeQuotes before ++ '\n' :: back ∧
      '\n' ∉ front ++ '"' :: escapeQuotes before ∧
      ∀ text, parseCsvLine (front ++ '"' :: escapeQuotes text) =
        .error "unterminated quoted field".toList := by
  have cut : ∀ {field : Text}, '\n' ∈ field → ∃ before back : Text, '\n' ∉ before ∧
      csvField field = '"' :: escapeQuotes before ++ '\n' :: back := by
    intro field mem
    obtain ⟨before, after, split, first⟩ := List.eq_append_cons_of_mem mem
    refine ⟨before, escapeQuotes after ++ ['"'], first, ?_⟩
    rw [csvField_of_quoted ⟨'\n', mem, by decide⟩, split]
    simp [escapeQuotes]
  by_cases inPath : '\n' ∈ entry.path
  · obtain ⟨before, back, first, split⟩ := cut inPath
    refine ⟨[], before, back ++ ',' :: csvField (entry.hash.getD []) ++
      ',' :: (entry.size.map decimal).getD [], ?_, ?_, fun text ↦ ?_⟩
    · simp [RecordEntry.line, split]
    · simp [newline_mem_escapeQuotes, first]
    · rw [List.nil_append, parseCsvLine, csvFields_open, csvFields_unterminated]
  · obtain ⟨hash, found, inHash⟩ : ∃ hash, entry.hash = some hash ∧ '\n' ∈ hash := by
      by_contra none
      exact h ⟨inPath, fun hash found mem ↦ none ⟨hash, found, mem⟩⟩
    obtain ⟨before, back, first, split⟩ := cut inHash
    refine ⟨csvField entry.path ++ [','], before, back ++ ',' :: (entry.size.map decimal).getD [],
      ?_, ?_, fun text ↦ ?_⟩
    · simp [RecordEntry.line, found, split]
    · simp [newline_mem_escapeQuotes, newline_mem_csvField, first, inPath]
    · rw [List.append_assoc, List.singleton_append, parseCsvLine, csvField_cons, csvFields_open,
        csvFields_unterminated]
      rfl

theorem parseRows_line (valid : entry.Valid) (h : entry.OneLine) (label : Text) (number : ℕ)
    (rest : Text) : parseRows label number (lines (recordRow entry ++ rest)) =
      (parseRows label (number + 1) (lines rest)).map fun entries ↦ entry :: entries := by
  have nonempty : entry.line ≠ [] := by simp [RecordEntry.line]
  rw [recordRow_eq valid, List.append_assoc, List.singleton_append,
    lines_append_newline h.newline_not_mem, chomp_line, parseRows, if_neg nonempty, parseRow_line valid]
  cases parseRows label (number + 1) (lines rest) <;> rfl

theorem parseRows_cut (valid : entry.Valid) (h : ¬entry.OneLine) (label : Text) (number : ℕ)
    (rest : Text) : parseRows label number (lines (recordRow entry ++ rest)) =
      .error (invalidRecordLine label number "unterminated quoted field".toList) := by
  obtain ⟨front, before, back, split, first, refused⟩ := RecordEntry.line_cut h
  obtain ⟨kept, chomped⟩ := chomp_open front before
  have nonempty : front ++ '"' :: escapeQuotes kept ≠ [] := by simp
  rw [recordRow_eq valid, split, List.append_assoc, List.append_assoc, List.cons_append,
    lines_append_newline first, chomped, parseRows, if_neg nonempty, parseRow, refused]
  rfl

theorem parseRows_writeRecord_iff {entries : List RecordEntry} (valid : ∀ entry ∈ entries, entry.Valid)
    (label : Text) (number : ℕ) : parseRows label number (lines (writeRecord entries)) = .ok entries ↔
      ∀ entry ∈ entries, entry.OneLine := by
  induction entries generalizing number with
  | nil => simp [writeRecord, lines_nil, parseRows, pure, Except.pure]
  | cons entry rest ih =>
    obtain ⟨validEntry, validRest⟩ := List.forall_mem_cons.mp valid
    rw [List.forall_mem_cons, ← ih validRest (number + 1), writeRecord, List.flatMap_cons, ← writeRecord]
    by_cases oneLine : entry.OneLine
    · rw [parseRows_line validEntry oneLine]
      cases parseRows label (number + 1) (lines (writeRecord rest)) <;> simp [Except.map, oneLine]
    · rw [parseRows_cut validEntry oneLine]
      simp [oneLine]

/-- A written RECORD is read back exactly where no path and no hash holds a line feed. -/
theorem parseRecord_writeRecord_iff (entries : List RecordEntry) (label : Text)
    (valid : ∀ entry ∈ entries, entry.Valid) : parseRecord (writeRecord entries) label = .ok entries ↔
      ∀ entry ∈ entries, '\n' ∉ entry.path ∧ ∀ hash, entry.hash = some hash → '\n' ∉ hash :=
  parseRows_writeRecord_iff valid label 1

theorem parseRecord_writeRecord_iff_comma :
    parseRecord (writeRecord [⟨"a,b".toList, some "sha256=c".toList, some 4⟩]) [] =
      .ok [⟨"a,b".toList, some "sha256=c".toList, some 4⟩] :=
  (parseRecord_writeRecord_iff [⟨"a,b".toList, some "sha256=c".toList, some 4⟩] []
    (List.forall_mem_singleton.mpr ⟨by decide, by decide, fun _ same ↦ Option.some.inj same ▸ by decide,
      fun isSelf ↦ absurd isSelf (by decide)⟩)).mpr
    (List.forall_mem_singleton.mpr ⟨by decide, fun _ same ↦ Option.some.inj same ▸ by decide⟩)

/-- The quoted path `a`, line feed, `b` is cut into two lines. -/
theorem line_feed_refused : RecordEntry.Valid ⟨['a', '\n', 'b'], none, none⟩ ∧
    parseRecord (writeRecord [⟨['a', '\n', 'b'], none, none⟩]) [] ≠ .ok [⟨['a', '\n', 'b'], none, none⟩] := by
  constructor
  · exact ⟨by decide, by decide, by simp, fun _ ↦ ⟨rfl, rfl⟩⟩
  · decide

end Pon.Wheel
