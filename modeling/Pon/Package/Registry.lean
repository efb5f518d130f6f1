import Pon.Package.Environment

/-!
# The rows of the registry

A row is the fields of a record between tabs, and its import names between commas. What is written is
read back, but for the rows that are blank throughout, which the reader skips, and for two spellings of
nothing: an empty path, and one empty import name. A text that is cut short is refused or read with the
names of its first rows. A registry that is only ever replaced by an upsert or a removal stays sorted by
normalized name, with one row for each name.
-/

namespace Pon.Package

def InstalledPackageRecord.fields (record : InstalledPackageRecord) : List Text :=
  [record.name, record.version, record.artifactKind, [','].intercalate record.importNames,
    record.recordPath.getD []]

/-- The row without its line feed. -/
def InstalledPackageRecord.line (record : InstalledPackageRecord) : Text :=
  ['\t'].intercalate record.fields

/-- The reader takes the row for a blank line. -/
def InstalledPackageRecord.Blank (record : InstalledPackageRecord) : Prop :=
  ∀ c ∈ record.line, isWhitespace c = true

instance : DecidablePred InstalledPackageRecord.Blank :=
  fun record ↦ inferInstanceAs (Decidable (∀ c ∈ record.line, isWhitespace c = true))

/-- The record that the reader makes of a row. -/
def InstalledPackageRecord.readBack (record : InstalledPackageRecord) : InstalledPackageRecord :=
  { record with
    importNames := if record.importNames = [[]] then [] else record.importNames
    recordPath := record.recordPath.filter (· ≠ []) }

/-- The fields hold none of the delimiters of a row, and the import names no comma. -/
structure InstalledPackageRecord.Delimited (record : InstalledPackageRecord) : Prop where
  fields : ∀ field ∈ record.fields, '\t' ∉ field ∧ '\n' ∉ field ∧ '\r' ∉ field
  importNames : ∀ name ∈ record.importNames, ',' ∉ name

variable {label text part : Text} {names : List Text} {record : InstalledPackageRecord}
  {records : List InstalledPackageRecord}

theorem validateRegistryField_ok {value : Text} (h : validateRegistryField value label = .ok ()) :
    '\t' ∉ value ∧ '\n' ∉ value ∧ '\r' ∉ value := by
  unfold validateRegistryField at h
  split_ifs at h with delimiter
  simpa only [not_or] using delimiter

theorem validateImportName_ok {name : Text} (h : validateImportName name = .ok ()) :
    ('\t' ∉ name ∧ '\n' ∉ name ∧ '\r' ∉ name) ∧ ',' ∉ name := by
  unfold validateImportName at h
  cases valid : validateRegistryField name "import name".toList with
  | error _ =>
    rw [valid] at h
    cases h
  | ok _ =>
    rw [valid] at h
    refine ⟨validateRegistryField_ok valid, fun comma ↦ ?_⟩
    simp [bind, Except.bind, comma, throw, throwThe, MonadExceptOf.throw] at h

theorem forM_validateImportName_ok (h : names.forM validateImportName = .ok ()) :
    ∀ name ∈ names, ('\t' ∉ name ∧ '\n' ∉ name ∧ '\r' ∉ name) ∧ ',' ∉ name := by
  induction names with
  | nil => exact fun _ mem ↦ absurd mem List.not_mem_nil
  | cons first rest ih =>
    rw [List.forM] at h
    cases valid : validateImportName first with
    | error _ =>
      rw [valid] at h
      cases h
    | ok _ =>
      rw [valid] at h
      exact List.forall_mem_cons.mpr ⟨validateImportName_ok valid, ih h⟩

theorem mem_intercalate {separator c : Char} :
    c ∈ [separator].intercalate names → c = separator ∨ ∃ name ∈ names, c ∈ name := by
  induction names with
  | nil => exact fun mem ↦ absurd mem List.not_mem_nil
  | cons first rest ih =>
    intro mem
    by_cases last : rest = []
    · rw [last, List.intercalate_singleton] at mem
      exact Or.inr ⟨first, List.mem_cons_self, mem⟩
    · rw [List.intercalate_cons_of_ne_nil last, List.append_assoc, List.mem_append,
        List.singleton_append, List.mem_cons] at mem
      obtain inFirst | isSeparator | inRest := mem
      · exact Or.inr ⟨first, List.mem_cons_self, inFirst⟩
      · exact Or.inl isSeparator
      · obtain isSeparator | ⟨name, isName, inName⟩ := ih inRest
        · exact Or.inl isSeparator
        · exact Or.inr ⟨name, List.mem_cons_of_mem first isName, inName⟩

theorem ok_of_bind_ok {α β : Type} {first : Except Error α} {next : α → Except Error β} {b : β}
    (h : first >>= next = .ok b) : ∃ a, first = .ok a ∧ next a = .ok b := by
  cases first with
  | error _ => cases h
  | ok a => exact ⟨a, rfl, h⟩

theorem line_eq (record : InstalledPackageRecord) : record.line =
    record.name ++ '\t' :: record.version ++ '\t' :: record.artifactKind ++ '\t' ::
      [','].intercalate record.importNames ++ '\t' :: record.recordPath.getD [] := by
  simp [InstalledPackageRecord.line, InstalledPackageRecord.fields, List.intercalate_cons_cons]

/-- A row that is written is delimited. -/
theorem registryRow_ok {row : Text} (h : registryRow record = .ok row) :
    record.Delimited ∧ row = record.line ++ ['\n'] := by
  unfold registryRow at h
  obtain ⟨_, name, h⟩ := ok_of_bind_ok h
  obtain ⟨_, version, h⟩ := ok_of_bind_ok h
  obtain ⟨_, artifactKind, h⟩ := ok_of_bind_ok h
  obtain ⟨_, importNames, h⟩ := ok_of_bind_ok h
  obtain ⟨_, recordPath, h⟩ := ok_of_bind_ok h
  have names := forM_validateImportName_ok importNames
  have joined : '\t' ∉ [','].intercalate record.importNames ∧
      '\n' ∉ [','].intercalate record.importNames ∧ '\r' ∉ [','].intercalate record.importNames := by
    have absent : ∀ c, c ≠ ',' → (∀ name ∈ record.importNames, c ∉ name) →
        c ∉ [','].intercalate record.importNames := by
      intro c notComma outside mem
      obtain isComma | ⟨name, isName, inName⟩ := mem_intercalate mem
      · exact notComma isComma
      · exact outside name isName inName
    exact ⟨absent _ (by decide) fun name isName ↦ (names name isName).1.1,
      absent _ (by decide) fun name isName ↦ (names name isName).1.2.1,
      absent _ (by decide) fun name isName ↦ (names name isName).1.2.2⟩
  have delimited : record.Delimited := by
    refine ⟨?_, fun name isName ↦ (names name isName).2⟩
    simp only [InstalledPackageRecord.fields, List.forall_mem_cons]
    exact ⟨validateRegistryField_ok name, validateRegistryField_ok version,
      validateRegistryField_ok artifactKind, joined, validateRegistryField_ok recordPath, fun _ mem ↦ absurd mem List.not_mem_nil⟩
  refine ⟨delimited, ?_⟩
  have written : row = record.name ++ '\t' :: record.version ++ '\t' :: record.artifactKind ++ '\t' ::
      [','].intercalate record.importNames ++ '\t' :: record.recordPath.getD [] ++ ['\n'] := by
    split_ifs at h
    · obtain ⟨_, _, h⟩ := ok_of_bind_ok h
      exact (Except.ok.inj h).symm
    · exact (Except.ok.inj h).symm
  rw [written, line_eq]

theorem trim_eq_nil_iff : trim text = [] ↔ ∀ c ∈ text, isWhitespace c = true := by
  have start : trimStart text = [] ↔ ∀ c ∈ text, isWhitespace c = true := List.dropWhile_eq_nil_iff
  rw [← start, trim, List.reverse_eq_nil_iff, List.dropWhile_eq_nil_iff]
  constructor
  · intro blank
    by_contra nonempty
    have first : isWhitespace ((trimStart text).head nonempty) = false :=
      List.head_dropWhile_not isWhitespace nonempty
    rw [blank _ (List.mem_reverse.mpr (List.head_mem nonempty))] at first
    cases first
  · intro empty c mem
    rw [empty] at mem
    exact absurd mem List.not_mem_nil

theorem importNames_read (h : ∀ name ∈ names, ',' ∉ name) :
    (if [','].intercalate names = [] then [] else ([','].intercalate names).splitOn ',') =
      if names = [[]] then [] else names := by
  by_cases none : names = []
  · simp [none]
  · by_cases empty : names = [[]]
    · simp [empty]
    · have nonempty : [','].intercalate names ≠ [] := by
        obtain ⟨first, rest, rfl⟩ := List.exists_cons_of_ne_nil none
        by_cases last : rest = []
        · subst last
          simpa [List.intercalate_singleton] using empty
        · simp [List.intercalate_cons_of_ne_nil last]
      rw [if_neg nonempty, if_neg empty, List.splitOn_intercalate ',' h none]

section

variable (h : record.Delimited)
include h

theorem parseRegistryRow_line (label : Text) (number : ℕ) :
    parseRegistryRow label number record.line = .ok record.readBack := by
  have split : record.line.splitOn '\t' = record.fields :=
    List.splitOn_intercalate '\t' (fun field mem ↦ (h.fields field mem).1) (List.cons_ne_nil _ _)
  unfold parseRegistryRow
  rw [split]
  simp only [InstalledPackageRecord.fields]
  rw [importNames_read h.importNames]
  obtain ⟨name, version, artifactKind, importNames, recordPath⟩ := record
  cases recordPath with
  | none => rfl
  | some path => by_cases empty : path = [] <;>
      simp [InstalledPackageRecord.readBack, Option.filter, empty]

theorem newline_not_mem_line : '\n' ∉ record.line := by
  intro mem
  obtain isTab | ⟨field, isField, inField⟩ := mem_intercalate mem
  · cases isTab
  · exact (h.fields field isField).2.1 inField

theorem chomp_registry_line : chomp record.line = record.line := by
  apply chomp_eq_self
  intro last
  obtain isTab | ⟨field, isField, inField⟩ := mem_intercalate (List.mem_of_getLast? last)
  · cases isTab
  · exact (h.fields field isField).2.2 inField

/-- A row that is not blank is read as its record, and a blank row is skipped. -/
theorem parseRegistryRows_line (label : Text) (number : ℕ) (rest : Text) :
    parseRegistryRows label number (lines (record.line ++ '\n' :: rest)) =
      (parseRegistryRows label (number + 1) (lines rest)).map fun records ↦
        if record.Blank then records else record.readBack :: records := by
  rw [lines_append_newline (newline_not_mem_line h), chomp_registry_line h, parseRegistryRows]
  by_cases blank : record.Blank
  · rw [if_pos (trim_eq_nil_iff.mpr blank)]
    cases parseRegistryRows label (number + 1) (lines rest) <;> simp [Except.map, blank]
  · rw [if_neg fun empty ↦ blank (trim_eq_nil_iff.mp empty), parseRegistryRow_line h]
    cases parseRegistryRows label (number + 1) (lines rest) <;> simp [Except.map, blank, bind, Except.bind,
      pure, Except.pure]

end

theorem registryText_cons {rest : List InstalledPackageRecord}
    (h : registryText (record :: rest) = .ok text) :
    ∃ row more, registryRow record = .ok row ∧ registryText rest = .ok more ∧ text = row ++ more := by
  unfold registryText at h
  rw [List.mapM_cons] at h
  obtain ⟨rows, all, h⟩ := ok_of_bind_ok h
  obtain ⟨row, first, all⟩ := ok_of_bind_ok all
  obtain ⟨others, back, all⟩ := ok_of_bind_ok all
  obtain rfl := Except.ok.inj all
  refine ⟨row, others.flatten, first, ?_, (Except.ok.inj h).symm⟩
  rw [registryText, back]
  rfl

/-- The records that the reader makes of written records. -/
def readBack (records : List InstalledPackageRecord) : List InstalledPackageRecord :=
  (records.filter fun record ↦ ¬record.Blank).map InstalledPackageRecord.readBack

theorem parseRegistry_text (h : registryText records = .ok text) (label : Text) :
    parseRegistry text label = .ok (readBack records) := by
  have rows : ∀ number, parseRegistryRows label number (lines text) = .ok (readBack records) := by
    induction records generalizing text with
    | nil =>
      obtain rfl := Except.ok.inj h
      exact fun _ ↦ rfl
    | cons record rest ih =>
      intro number
      obtain ⟨row, more, first, back, rfl⟩ := registryText_cons h
      obtain ⟨delimited, rfl⟩ := registryRow_ok first
      rw [List.append_assoc, List.singleton_append, parseRegistryRows_line delimited, ih back]
      by_cases blank : record.Blank <;> simp [Except.map, blank, readBack]
  exact rows 1

theorem prefix_append_cons {front back : Text} {c : Char} (h : part <+: front ++ c :: back) :
    part <+: front ∨ ∃ rest, part = front ++ c :: rest ∧ rest <+: back := by
  obtain shorter | longer := List.prefix_or_prefix_of_prefix h (List.prefix_append front (c :: back))
  · exact Or.inl shorter
  · obtain ⟨more, rfl⟩ := longer
    rw [List.prefix_append_right_inj, List.prefix_cons_iff] at h
    obtain rfl | ⟨rest, rfl, inBack⟩ := h
    · exact Or.inl (by simp)
    · exact Or.inr ⟨rest, rfl, inBack⟩

/-- A row that is cut short, and can be read, has its whole name. -/
theorem name_of_parseRegistryRow {read : InstalledPackageRecord} (h : record.Delimited) {number : ℕ}
    (front : part <+: record.line) (parsed : parseRegistryRow label number part = .ok read) :
    read.name = record.name := by
  have noTab : '\t' ∉ record.name := (h.fields record.name List.mem_cons_self).1
  have columns : part.splitOn '\t' = [part] ∨ ∃ rest, part.splitOn '\t' = record.name :: rest := by
    rw [line_eq] at front
    simp only [List.append_assoc, List.cons_append] at front
    obtain inName | ⟨rest, rfl, _⟩ := prefix_append_cons front
    · exact Or.inl (List.splitOn_eq_singleton fun mem ↦ noTab (inName.subset mem))
    · exact Or.inr ⟨_, List.splitOn_append_cons_self_of_not_mem noTab rest⟩
  unfold parseRegistryRow at parsed
  obtain alone | ⟨rest, columns⟩ := columns
  · rw [alone] at parsed
    cases parsed
  · rw [columns] at parsed
    dsimp only at parsed
    split at parsed
    · rename_i fields
      obtain rfl := Except.ok.inj parsed
      exact (List.cons.inj fields).1.symm
    · rename_i fields
      obtain rfl := Except.ok.inj parsed
      exact (List.cons.inj fields).1.symm
    · cases parsed

variable {read : List InstalledPackageRecord}

/-- The first rows of a text that was written are read with the names that were written. -/
theorem names_of_parseRegistry (h : registryText records = .ok text) (front : part <+: text)
    (parsed : parseRegistry part label = .ok read) :
    List.Sublist (read.map InstalledPackageRecord.name) (records.map InstalledPackageRecord.name) := by
  have rows : ∀ number, parseRegistryRows label number (lines part) = .ok read →
      List.Sublist (read.map InstalledPackageRecord.name) (records.map InstalledPackageRecord.name) := by
    clear parsed
    induction records generalizing text part read with
    | nil =>
      intro number parsed
      obtain rfl := Except.ok.inj h
      rw [List.prefix_nil.mp front] at parsed
      obtain rfl := Except.ok.inj parsed
      exact List.Sublist.refl _
    | cons record rest ih =>
      intro number parsed
      obtain ⟨row, more, first, back, rfl⟩ := registryText_cons h
      obtain ⟨delimited, rfl⟩ := registryRow_ok first
      rw [List.append_assoc, List.singleton_append] at front
      obtain cut | ⟨part, rfl, tail⟩ := prefix_append_cons front
      · have only : lines part = if part = [] then [] else [part] := by
          have whole : '\n' ∉ part := fun mem ↦ newline_not_mem_line delimited (cut.subset mem)
          by_cases empty : part = [] <;>
            simp [lines, List.splitOn_eq_singleton whole, Option.filter, empty]
        rw [only] at parsed
        split_ifs at parsed
        · obtain rfl := Except.ok.inj parsed
          exact List.nil_sublist _
        · unfold parseRegistryRows at parsed
          split_ifs at parsed
          · obtain rfl := Except.ok.inj parsed
            exact List.nil_sublist _
          · obtain ⟨row, parsedRow, parsed⟩ := ok_of_bind_ok parsed
            obtain rfl := Except.ok.inj parsed
            rw [List.map_singleton, name_of_parseRegistryRow delimited cut parsedRow, List.map_cons]
            exact (List.nil_sublist _).cons_cons _
      · rw [parseRegistryRows_line delimited] at parsed
        cases others : parseRegistryRows label (number + 1) (lines part) with
        | error _ =>
          rw [others] at parsed
          cases parsed
        | ok others' =>
          rw [others] at parsed
          obtain rfl := Except.ok.inj parsed
          have sub := ih back tail (number + 1) others
          split_ifs with blank
          · exact sub.cons _
          · exact sub.cons_cons _
  exact rows 1 parsed

theorem InstalledPackageRecord.readBack_eq_iff :
    record.readBack = record ↔ record.importNames ≠ [[]] ∧ record.recordPath ≠ some [] := by
  obtain ⟨name, version, artifactKind, importNames, recordPath⟩ := record
  have path : recordPath.filter (· ≠ []) = recordPath ↔ recordPath ≠ some [] := by
    cases recordPath with
    | none => simp
    | some path => by_cases empty : path = [] <;> simp [Option.filter, empty]
  have names : (if importNames = [[]] then [] else importNames) = importNames ↔ importNames ≠ [[]] := by
    by_cases empty : importNames = [[]] <;> simp [empty]
  simp only [InstalledPackageRecord.readBack, InstalledPackageRecord.mk.injEq, true_and, path, names]

/-- What is written is read back exactly where no row is blank, no import name is a lone empty one, and
no path is empty. -/
theorem parseRegistry_text_iff (h : registryText records = .ok text) (label : Text) :
    parseRegistry text label = .ok records ↔
      ∀ record ∈ records, ¬record.Blank ∧ record.importNames ≠ [[]] ∧ record.recordPath ≠ some [] := by
  rw [parseRegistry_text h, Except.ok.injEq, readBack]
  constructor
  · intro same
    have all : records.filter (fun record ↦ ¬record.Blank) = records := by
      apply List.filter_eq_self.mpr
      apply List.length_filter_eq_length_iff.mp
      have lengths := congrArg List.length same
      rwa [List.length_map] at lengths
    rw [all] at same
    intro record mem
    refine ⟨by simpa using List.filter_eq_self.mp all record mem, ?_⟩
    exact InstalledPackageRecord.readBack_eq_iff.mp
      (List.map_inj_left.mp (same.trans (List.map_id records).symm) record mem)
  · intro kept
    have all : records.filter (fun record ↦ ¬record.Blank) = records :=
      List.filter_eq_self.mpr fun record mem ↦ by simpa using (kept record mem).1
    rw [all]
    have same : ∀ record ∈ records, record.readBack = id record := fun record mem ↦
      InstalledPackageRecord.readBack_eq_iff.mpr (kept record mem).2
    rw [List.map_congr_left same, List.map_id]

/-- Sorted by normalized name, and one record for each name. -/
def SortedByName (records : List InstalledPackageRecord) : Prop :=
  records.Pairwise fun left right ↦ normalize left.name < normalize right.name

section

variable (h : SortedByName records)
include h

theorem SortedByName.of_names
    (sub : List.Sublist (read.map InstalledPackageRecord.name) (records.map InstalledPackageRecord.name)) :
    SortedByName read := by
  have names : (records.map InstalledPackageRecord.name).Pairwise
      fun left right ↦ normalize left < normalize right := List.pairwise_map.mpr h
  have kept := names.sublist sub
  rwa [List.pairwise_map] at kept

theorem SortedByName.readBack : SortedByName (readBack records) :=
  List.pairwise_map.mpr (h.filter _)

theorem SortedByName.eraseP (p : InstalledPackageRecord → Bool) :
    SortedByName (records.eraseP p) :=
  h.sublist List.eraseP_sublist

end

theorem names_upsertRecord (record : InstalledPackageRecord) (records : List InstalledPackageRecord) :
    (upsertRecord record records).map (fun other ↦ normalize other.name) =
      if normalize record.name ∈ records.map fun other ↦ normalize other.name then
        records.map fun other ↦ normalize other.name
      else (records.map fun other ↦ normalize other.name) ++ [normalize record.name] := by
  induction records with
  | nil => rfl
  | cons first rest ih =>
    unfold upsertRecord
    by_cases same : normalize first.name = normalize record.name
    · simp [same]
    · have other : normalize record.name ≠ normalize first.name := Ne.symm same
      rw [if_neg same, List.map_cons, ih, List.map_cons]
      by_cases listed : normalize record.name ∈ rest.map fun other ↦ normalize other.name
      · rw [if_pos listed, if_pos (List.mem_cons_of_mem _ listed)]
      · rw [if_neg listed, if_neg (List.not_mem_cons_of_ne_of_not_mem other listed), List.cons_append]

theorem SortedByName.upsert (h : SortedByName records) (record : InstalledPackageRecord) :
    SortedByName (sortRecords (upsertRecord record records)) := by
  have nodup : ((upsertRecord record records).map fun other ↦ normalize other.name).Nodup := by
    have before : (records.map fun other ↦ normalize other.name).Nodup :=
      List.pairwise_map.mpr (h.imp fun less ↦ less.ne)
    rw [names_upsertRecord]
    split_ifs with listed
    · exact before
    · exact before.append (List.nodup_singleton _) (by simpa using listed)
  have sorted : (sortRecords (upsertRecord record records)).Pairwise
      fun left right ↦ normalize left.name ≤ normalize right.name := List.pairwise_insertionSort _ _
  have perm : (sortRecords (upsertRecord record records)).Perm (upsertRecord record records) :=
    List.perm_insertionSort _ _
  have names : ((sortRecords (upsertRecord record records)).map fun other ↦ normalize other.name).Nodup :=
    (perm.map fun other ↦ normalize other.name).nodup_iff.mpr nodup
  have distinct : (sortRecords (upsertRecord record records)).Pairwise
      fun left right ↦ normalize left.name ≠ normalize right.name := List.pairwise_map.mp names
  exact sorted.imp₂ (fun _ _ before apart ↦ lt_of_le_of_ne before apart) distinct

end Pon.Package
