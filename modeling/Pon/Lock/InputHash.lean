import Mathlib.Data.List.Infix
import Mathlib.Data.List.Perm.Basic
import Mathlib.Data.List.Sort
import Pon.Manifest.PyProject
import Pon.Package.Text

/-!
# The input hash of a lock file

A lock file is fresh as long as the hash of its inputs is. The inputs are the dependencies of the
manifest, its sources and the settings, each formatted as an entry of its own; the entries are sorted and
joined by line feeds. Nothing is escaped: the inputs can be read back from the text only if no entry
has a line that looks like the start of another one, and no field of a source the label of the next.
-/

namespace Pon.Lock

open Package Paths Toml Manifest

/-- A source with its path as it is displayed. -/
structure LockSource where
  path : Option Text
  editable : Bool
  git : Option Text
  rev : Option Text
deriving DecidableEq

/-- What the hash depends on. -/
structure Inputs where
  dependencies : List Text
  indexUrl : Option Text
  allowPrerelease : Bool
  sources : OrderedMap Text LockSource

/-! ## Reading the inputs -/

section Reader

variable (project : PyProject)

/-- The text of a joined path. -/
def joinText (base path : Text) : Text :=
  if base.getLast? = some '/' then base ++ path else base ++ '/' :: path

def displaySourcePath (raw : Text) : Text :=
  if IsAbsolute (components raw) then raw else joinText (display project.baseDir) raw

def readLockSource (key : Text) (item : Item) : Except Manifest.Error LockSource := do
  let source ← project.readSource key item
  let rawPath := (item.entries?.bind (Entries.get? "path".toList)).bind Item.asString?
  pure { path := rawPath.map (displaySourcePath project), editable := source.editable, git := source.git
         rev := source.rev }

def readLockSources : Entries → Except Manifest.Error (List (Text × LockSource))
  | [] => pure []
  | (key, item) :: rest => do
      let source ← readLockSource project key item
      let sources ← readLockSources rest
      pure ((normalize key, source) :: sources)

def lockSources : OrderedMap Text LockSource :=
  match readLockSources project project.sourceEntries with
  | .ok sources => OrderedMap.empty.insertAll sources
  | .error _ => .empty

def toolPonIndexUrl : Option Text :=
  project.stringAt ["tool".toList, "pon".toList, "index-url".toList]

def toolPonAllowPrerelease : Bool :=
  ((project.doc.itemAt ["tool".toList, "pon".toList, "allow-prerelease".toList]).bind Item.asBool?).getD false

/-- The inputs of a project; the overrides come before its settings. -/
def projectInputs (indexUrl : Option Text) (allowPrerelease : Option Bool) : Inputs where
  dependencies := project.dependencies
  indexUrl := indexUrl.or (toolPonIndexUrl project)
  allowPrerelease := allowPrerelease.getD (toolPonAllowPrerelease project)
  sources := lockSources project

end Reader

/-! ## Entries -/

def dependencyEntry (dependency : Text) : Text :=
  "project.dependencies=".toList ++ dependency

def indexUrlEntry (indexUrl : Option Text) : Text :=
  "tool.pon.index-url=".toList ++ indexUrl.getD []

def boolText (value : Bool) : Text :=
  if value then "true".toList else "false".toList

def allowPrereleaseEntry (value : Bool) : Text :=
  "tool.pon.allow-prerelease=".toList ++ boolText value

def sourceEntry (name : Text) (source : LockSource) : Text :=
  "tool.pon.sources.".toList ++ (name ++ ("=path:".toList ++ (source.path.getD [] ++
    (" editable:".toList ++ (boolText source.editable ++ (" git:".toList ++ (source.git.getD [] ++
      (" rev:".toList ++ source.rev.getD []))))))))

/-- What remains of a text of the input. -/
def normalizedTexts (texts : List Text) : List Text :=
  (texts.map trim).filter (· ≠ [])

def extraEntries (inputs : Inputs) : List Text :=
  indexUrlEntry inputs.indexUrl :: allowPrereleaseEntry inputs.allowPrerelease ::
    inputs.sources.entries.map fun entry ↦ sourceEntry entry.1 entry.2

/-- The entries in the order in which they are hashed. -/
def hashEntries (dependencies extra : List Text) : List Text :=
  ((normalizedTexts dependencies).map dependencyEntry ++ normalizedTexts extra).insertionSort (· ≤ ·)

def hashInput (dependencies extra : List Text) : List UInt8 :=
  Text.bytes (['\n'].intercalate (hashEntries dependencies extra))

variable (sha256Hex : List UInt8 → Text)

def computeInputHashWithEntries (dependencies extra : List Text) : Text :=
  "sha256:".toList ++ sha256Hex (hashInput dependencies extra)

def computeProjectInputHashWithOverrides (project : PyProject)
    (indexUrl : Option Text) (allowPrerelease : Option Bool) : Text :=
  let inputs := projectInputs project indexUrl allowPrerelease
  computeInputHashWithEntries sha256Hex inputs.dependencies (extraEntries inputs)

/-! ## Legible inputs -/

/-- The inputs are the same: the dependencies up to white space and order, and everything else. -/
structure Inputs.Same (a b : Inputs) : Prop where
  dependencies : (normalizedTexts a.dependencies).Perm (normalizedTexts b.dependencies)
  indexUrl : a.indexUrl = b.indexUrl
  allowPrerelease : a.allowPrerelease = b.allowPrerelease
  sources : a.sources = b.sources

/-- A line with which an entry may start. -/
def StartsEntry (line : Text) : Prop :=
  "project.dependencies=".toList <+: line ∨ "tool.pon.".toList <+: line

/-- No line of the entry but the first looks like the start of an entry. -/
def OneEntry (entry : Text) : Prop :=
  ∀ line ∈ (entry.splitOn '\n').tail, ¬StartsEntry line

instance : DecidablePred StartsEntry := fun line ↦
  inferInstanceAs (Decidable ("project.dependencies=".toList <+: line ∨ "tool.pon.".toList <+: line))

instance : DecidablePred OneEntry := fun entry ↦
  inferInstanceAs (Decidable (∀ line ∈ (entry.splitOn '\n').tail, ¬StartsEntry line))

/-- The text is there and does not end in white space. -/
def Trimmed (text : Text) : Prop :=
  text ≠ [] ∧ ∀ c ∈ text.getLast?, isWhitespace c = false

/-- The fields of a source are told apart by the labels of the next ones. -/
structure LockSource.Legible (name : Text) (source : LockSource) : Prop where
  bareName : '=' ∉ name
  path : ∀ path ∈ source.path, path ≠ [] ∧ ¬" editable:".toList <:+: path
  git : ∀ git ∈ source.git, git ≠ [] ∧ ¬" rev:".toList <:+: git
  rev : ∀ rev ∈ source.rev, Trimmed rev
  oneEntry : OneEntry (sourceEntry name source)

/-- The inputs can be read back from their entries. -/
structure Inputs.Legible (inputs : Inputs) : Prop where
  dependencies : ∀ dependency ∈ normalizedTexts inputs.dependencies, OneEntry (dependencyEntry dependency)
  indexUrl : ∀ url ∈ inputs.indexUrl, Trimmed url
  indexUrlEntry : OneEntry (indexUrlEntry inputs.indexUrl)
  sources : ∀ entry ∈ inputs.sources.entries, LockSource.Legible entry.1 entry.2

/-! ## Joined entries -/

/-- Where the first elements of a kind begin. -/
theorem append_inj_of_heads {α : Type*} {p : α → Prop} {xs ys rest rest' : List α}
    (hxs : ∀ x ∈ xs, ¬p x) (hys : ∀ y ∈ ys, ¬p y) (hrest : ∀ x ∈ rest.head?, p x)
    (hrest' : ∀ x ∈ rest'.head?, p x) (h : xs ++ rest = ys ++ rest') : xs = ys ∧ rest = rest' := by
  induction xs generalizing ys with
  | nil =>
    cases ys with
    | nil => exact ⟨rfl, h⟩
    | cons y ys =>
      rw [List.nil_append] at h
      exact absurd (hrest y (by rw [h]; rfl)) (hys y List.mem_cons_self)
  | cons x xs ih =>
    cases ys with
    | nil =>
      rw [List.nil_append] at h
      exact absurd (hrest' x (by rw [← h]; rfl)) (hxs x List.mem_cons_self)
    | cons y ys =>
      obtain ⟨rfl, tails⟩ := List.cons.inj h
      obtain ⟨rfl, same⟩ := ih (fun z mem ↦ hxs z (List.mem_cons_of_mem _ mem))
        (fun z mem ↦ hys z (List.mem_cons_of_mem _ mem)) tails
      exact ⟨rfl, same⟩

/-- The lists of a kind: the first element has a property that the others lack. -/
def Headed {α : Type*} (p : α → Prop) (list : List α) : Prop :=
  ∃ first rest, list = first :: rest ∧ p first ∧ ∀ x ∈ rest, ¬p x

/-- Lists that are headed can be told apart in their concatenation. -/
theorem eq_of_flatten_eq {α : Type*} {p : α → Prop} {lists lists' : List (List α)}
    (h : ∀ list ∈ lists, Headed p list) (h' : ∀ list ∈ lists', Headed p list)
    (same : lists.flatten = lists'.flatten) : lists = lists' := by
  have heads : ∀ {lists : List (List α)}, (∀ list ∈ lists, Headed p list) →
      ∀ x ∈ lists.flatten.head?, p x := by
    intro lists headed x mem
    cases lists with
    | nil => cases mem
    | cons list lists =>
      obtain ⟨first, rest, rfl, starts, _⟩ := headed list List.mem_cons_self
      obtain rfl := Option.some.inj mem
      exact starts
  induction lists generalizing lists' with
  | nil =>
    cases lists' with
    | nil => rfl
    | cons list lists' =>
      obtain ⟨first, rest, rfl, _⟩ := h' list List.mem_cons_self
      cases same
  | cons list lists ih =>
    obtain ⟨first, rest, rfl, _, others⟩ := h list List.mem_cons_self
    cases lists' with
    | nil => cases same
    | cons list' lists' =>
      obtain ⟨first', rest', rfl, _, others'⟩ := h' list' List.mem_cons_self
      have later := fun list mem ↦ h list (List.mem_cons_of_mem _ mem)
      have later' := fun list mem ↦ h' list (List.mem_cons_of_mem _ mem)
      obtain ⟨rfl, tails⟩ := List.cons.inj same
      obtain ⟨rfl, ends⟩ := append_inj_of_heads others others' (heads later) (heads later') tails
      rw [ih later later' ends]

variable {entries : List Text} {start label : Text} {c : Char} {a b inputs : Inputs}

theorem splitOn_intercalate_newline (h : entries ≠ []) :
    (['\n'].intercalate entries).splitOn '\n' = (entries.map fun entry ↦ entry.splitOn '\n').flatten := by
  induction entries with
  | nil => exact absurd rfl h
  | cons entry rest ih =>
    by_cases last : rest = []
    · rw [last, List.intercalate_singleton]
      exact (List.append_nil _).symm
    · rw [List.intercalate_cons_of_ne_nil last, List.append_assoc, List.singleton_append,
        List.splitOn_append_cons_self, ih last]
      rfl

/-- An entry that starts as one, and whose other lines do not. -/
structure IsEntry (entry : Text) : Prop where
  starts : StartsEntry entry
  oneEntry : OneEntry entry

theorem splitOn_append (h : '\n' ∉ start) (back : Text) :
    (start ++ back).splitOn '\n' = (back.splitOn '\n').modifyHead (start ++ ·) := by
  induction start with
  | nil =>
    obtain ⟨first, rest, split⟩ := List.exists_cons_of_ne_nil (List.splitOn_ne_nil '\n' back)
    rw [List.nil_append, split]
    rfl
  | cons c start ih =>
    obtain ⟨first, rest, split⟩ := List.exists_cons_of_ne_nil (List.splitOn_ne_nil '\n' back)
    have other : (c == '\n') = false := beq_eq_false_iff_ne.mpr fun same ↦ h (same ▸ List.mem_cons_self)
    rw [List.cons_append, List.splitOn_cons_eq_if_modifyHead, other, ih fun mem ↦ h (List.mem_cons_of_mem _ mem),
      split]
    rfl

theorem IsEntry.headed {entry : Text} (h : IsEntry entry) : Headed StartsEntry (entry.splitOn '\n') := by
  obtain ⟨first, rest, split⟩ := List.exists_cons_of_ne_nil (List.splitOn_ne_nil '\n' entry)
  have front : ∀ start : Text, '\n' ∉ start → start <+: entry → start <+: first := by
    intro start noBreak isFront
    obtain ⟨back, rfl⟩ := isFront
    rw [splitOn_append noBreak] at split
    cases pieces : back.splitOn '\n' with
    | nil => exact absurd pieces (List.splitOn_ne_nil _ _)
    | cons piece pieces' =>
      rw [pieces] at split
      obtain ⟨rfl, _⟩ := List.cons.inj split
      exact List.prefix_append _ _
  refine ⟨first, rest, split, h.starts.imp (front _ (by decide)) (front _ (by decide)), ?_⟩
  have others := h.oneEntry
  unfold OneEntry at others
  rw [split] at others
  exact others

/-- Entries can be told apart in their joined text. -/
theorem eq_of_intercalate_eq {entries' : List Text} (h : ∀ entry ∈ entries, IsEntry entry)
    (h' : ∀ entry ∈ entries', IsEntry entry) (nonempty : entries ≠ []) (nonempty' : entries' ≠ [])
    (same : ['\n'].intercalate entries = ['\n'].intercalate entries') : entries = entries' := by
  have lines := congrArg (List.splitOn '\n') same
  rw [splitOn_intercalate_newline nonempty, splitOn_intercalate_newline nonempty'] at lines
  have split := eq_of_flatten_eq (List.forall_mem_map.mpr fun entry mem ↦ (h entry mem).headed)
    (List.forall_mem_map.mpr fun entry mem ↦ (h' entry mem).headed) lines
  have back := congrArg (List.map fun lines ↦ ['\n'].intercalate lines) split
  simpa only [List.map_map, Function.comp_def, List.intercalate_splitOn, List.map_id'] using back

/-! ## Reading an entry back -/

variable {rest b' name : Text} {text : Option Text} {source : LockSource}

/-- A label whose first character does not come again in it starts nowhere before its first occurrence. -/
theorem eq_nil_of_label {a t b : Text} (hlabel : c ∉ label) (absent : ¬c :: label <:+: a ++ t)
    (h : c :: label ++ b = t ++ (c :: label ++ b')) : t = [] := by
  cases t with
  | nil => rfl
  | cons d t =>
    exfalso
    rw [List.cons_append, List.cons_append] at h
    obtain ⟨rfl, tails⟩ := List.cons.inj h
    have inside : ∀ u, t = label ++ u → False := by
      intro u isLong
      apply absent
      rw [isLong]
      exact ⟨a, u, by simp⟩
    obtain ⟨u, isLong, _⟩ | ⟨u, isShort, overlap⟩ := List.append_eq_append_iff.mp tails
    · exact inside u isLong
    · cases u with
      | nil => exact inside [] (by rw [isShort, List.append_nil, List.append_nil])
      | cons e u =>
        obtain ⟨rfl, _⟩ := List.cons.inj overlap
        apply hlabel
        rw [isShort]
        exact List.mem_append_right t List.mem_cons_self

/-- A text up to the first occurrence of a label. -/
theorem append_label_inj {a a' b : Text} (hlabel : c ∉ label) (ha : ¬c :: label <:+: a)
    (ha' : ¬c :: label <:+: a') (h : a ++ (c :: label ++ b) = a' ++ (c :: label ++ b')) :
    a = a' ∧ b = b' := by
  have same : a = a' := by
    obtain ⟨t, longer, rest⟩ | ⟨t, longer, rest⟩ := List.append_eq_append_iff.mp h
    · rw [longer] at ha'
      rw [longer, eq_nil_of_label hlabel ha' rest, List.append_nil]
    · rw [longer] at ha
      rw [longer, eq_nil_of_label hlabel ha rest, List.append_nil]
  rw [same] at h
  exact ⟨same, List.append_cancel_left (List.append_cancel_left h)⟩

theorem boolText_append_inj {a b : Bool} {rest' : Text}
    (h : boolText a ++ c :: rest = boolText b ++ c :: rest') : a = b ∧ rest = rest' := by
  cases a <;> cases b <;> simp_all [boolText]

theorem getD_inj {a b : Option Text} (ha : ∀ text ∈ a, text ≠ []) (hb : ∀ text ∈ b, text ≠ [])
    (h : a.getD [] = b.getD []) : a = b := by
  cases a with
  | none =>
    cases b with
    | none => rfl
    | some text => exact absurd h.symm (hb text rfl)
  | some text =>
    cases b with
    | none => exact absurd h (ha text rfl)
    | some other => exact congrArg some h

theorem infix_getD (hlabel : label ≠ []) (h : ∀ text' ∈ text, ¬label <:+: text') :
    ¬label <:+: text.getD [] := by
  cases text with
  | none => exact fun inside ↦ hlabel (List.infix_nil.mp inside)
  | some text => exact h text rfl

theorem sourceEntry_inj {name' : Text} {source' : LockSource} (h : source.Legible name)
    (h' : source'.Legible name') (same : sourceEntry name source = sourceEntry name' source') :
    name = name' ∧ source = source' := by
  have noEquals : ∀ name : Text, '=' ∉ name → ¬"=path:".toList <:+: name := fun name bare inside ↦
    bare (inside.subset (by decide))
  have editable : " editable:".toList ≠ [] := by decide
  have rev : " rev:".toList ≠ [] := by decide
  unfold sourceEntry at same
  obtain ⟨sameName, fields⟩ := append_label_inj (c := '=') (by decide : '=' ∉ "path:".toList)
    (noEquals name h.bareName) (noEquals name' h'.bareName) (List.append_cancel_left same)
  obtain ⟨samePath, fields⟩ := append_label_inj (c := ' ') (by decide : ' ' ∉ "editable:".toList)
    (infix_getD editable fun path mem ↦ (h.path path mem).2)
    (infix_getD editable fun path mem ↦ (h'.path path mem).2) fields
  obtain ⟨sameEditable, fields⟩ := boolText_append_inj fields
  obtain ⟨sameGit, fields⟩ := append_label_inj (c := ' ') (by decide : ' ' ∉ "rev:".toList)
    (infix_getD rev fun git mem ↦ (h.git git mem).2)
    (infix_getD rev fun git mem ↦ (h'.git git mem).2) (List.append_cancel_left fields)
  have paths : source.path = source'.path :=
    getD_inj (fun path mem ↦ (h.path path mem).1) (fun path mem ↦ (h'.path path mem).1) samePath
  have gits : source.git = source'.git :=
    getD_inj (fun git mem ↦ (h.git git mem).1) (fun git mem ↦ (h'.git git mem).1) sameGit
  have revs : source.rev = source'.rev :=
    getD_inj (fun rev mem ↦ (h.rev rev mem).1) (fun rev mem ↦ (h'.rev rev mem).1) fields
  refine ⟨sameName, ?_⟩
  cases source
  cases source'
  simp_all

/-! ## Legible entries -/

theorem trim_eq_self (first : isWhitespace c = false)
    (last : ∀ d ∈ (c :: rest).getLast?, isWhitespace d = false) : trim (c :: rest) = c :: rest := by
  have start : trimStart (c :: rest) = c :: rest := by
    unfold trimStart
    rw [List.dropWhile_cons_of_neg (by simp [first])]
  unfold trim
  rw [start]
  cases reversed : (c :: rest).reverse with
  | nil => exact absurd (List.reverse_eq_nil_iff.mp reversed) (List.cons_ne_nil _ _)
  | cons d others =>
    have isLast : (c :: rest).getLast? = some d := by
      rw [← List.head?_reverse, reversed]
      rfl
    rw [List.dropWhile_cons_of_neg (by simp [last d isLast]), ← reversed, List.reverse_reverse]

theorem last_of_getD {front : Text} (hfront : front.getLast? = some c) (hc : isWhitespace c = false)
    (h : ∀ text' ∈ text, Trimmed text') :
    ∀ d ∈ (front ++ text.getD []).getLast?, isWhitespace d = false := by
  cases text with
  | none =>
    intro d mem
    rw [Option.getD_none, List.append_nil, hfront] at mem
    obtain rfl := Option.some.inj mem
    exact hc
  | some text =>
    obtain ⟨nonempty, last⟩ := h text rfl
    intro d mem
    rw [Option.getD_some, List.getLast?_append_of_ne_nil _ nonempty] at mem
    exact last d mem

theorem trim_indexUrlEntry {indexUrl : Option Text} (h : ∀ url ∈ indexUrl, Trimmed url) :
    trim (indexUrlEntry indexUrl) = indexUrlEntry indexUrl :=
  have last : "tool.pon.index-url=".toList.getLast? = some '=' := rfl
  trim_eq_self (c := 't') (by decide) (last_of_getD last (by decide) h)

theorem trim_allowPrereleaseEntry (value : Bool) :
    trim (allowPrereleaseEntry value) = allowPrereleaseEntry value := by
  cases value <;> rfl

theorem trim_sourceEntry (h : ∀ rev ∈ source.rev, Trimmed rev) :
    trim (sourceEntry name source) = sourceEntry name source := by
  apply trim_eq_self (c := 't') (by decide)
  intro d mem
  have last : ∀ d ∈ (" rev:".toList ++ source.rev.getD []).getLast?, isWhitespace d = false :=
    last_of_getD (c := ':') rfl (by decide) h
  have ends : " rev:".toList ++ source.rev.getD [] <:+ sourceEntry name source := by
    unfold sourceEntry
    iterate 8 apply List.suffix_append_of_suffix
    exact List.suffix_rfl
  obtain ⟨front, ends⟩ := ends
  change d ∈ (sourceEntry name source).getLast? at mem
  rw [← ends, List.getLast?_append_of_ne_nil _ (List.append_ne_nil_of_left_ne_nil (by decide) _)] at mem
  exact last d mem

theorem normalizedTexts_eq_self {texts : List Text} (h : ∀ text ∈ texts, trim text = text ∧ text ≠ []) :
    normalizedTexts texts = texts := by
  have trimmed : texts.map trim = texts :=
    (List.map_congr_left fun text mem ↦ (h text mem).1).trans (List.map_id texts)
  unfold normalizedTexts
  rw [trimmed]
  exact List.filter_eq_self.mpr fun text mem ↦ by simpa using (h text mem).2

theorem normalizedTexts_extraEntries (h : inputs.Legible) :
    normalizedTexts (extraEntries inputs) = extraEntries inputs := by
  apply normalizedTexts_eq_self
  unfold extraEntries
  rw [List.forall_mem_cons, List.forall_mem_cons, List.forall_mem_map]
  exact ⟨⟨trim_indexUrlEntry h.indexUrl, List.cons_ne_nil _ _⟩,
    ⟨trim_allowPrereleaseEntry _, List.cons_ne_nil _ _⟩,
    fun entry mem ↦ ⟨trim_sourceEntry (h.sources entry mem).rev, List.cons_ne_nil _ _⟩⟩

/-- The entries before they are sorted. -/
def unsortedEntries (inputs : Inputs) : List Text :=
  (normalizedTexts inputs.dependencies).map dependencyEntry ++ normalizedTexts (extraEntries inputs)

theorem unsortedEntries_eq (h : inputs.Legible) : unsortedEntries inputs =
    (normalizedTexts inputs.dependencies).map dependencyEntry ++ indexUrlEntry inputs.indexUrl ::
      allowPrereleaseEntry inputs.allowPrerelease ::
        inputs.sources.entries.map fun entry ↦ sourceEntry entry.1 entry.2 := by
  unfold unsortedEntries
  rw [normalizedTexts_extraEntries h]
  rfl

theorem isEntry_of_legible (h : inputs.Legible) :
    ∀ entry ∈ unsortedEntries inputs, IsEntry entry := by
  have tool : ∀ rest : Text, StartsEntry ("tool.pon.".toList ++ rest) := fun rest ↦
    Or.inr (List.prefix_append _ _)
  have one : OneEntry (allowPrereleaseEntry inputs.allowPrerelease) := by
    cases inputs.allowPrerelease <;> decide
  rw [unsortedEntries_eq h, List.forall_mem_append, List.forall_mem_map, List.forall_mem_cons,
    List.forall_mem_cons, List.forall_mem_map]
  exact ⟨fun dependency mem ↦ ⟨Or.inl (List.prefix_append _ _), h.dependencies dependency mem⟩,
    ⟨tool _, h.indexUrlEntry⟩, ⟨tool _, one⟩, fun entry mem ↦ ⟨tool _, (h.sources entry mem).oneEntry⟩⟩

/-! ## Kinds of entries -/

/-- The entries of a kind. -/
def ofKind (start : Text) (entries : List Text) : List Text :=
  entries.filter start.isPrefixOf

theorem ofKind_all (h : ∀ entry ∈ entries, start.isPrefixOf entry = true) :
    ofKind start entries = entries :=
  List.filter_eq_self.mpr h

theorem ofKind_none (h : ∀ entry ∈ entries, start.isPrefixOf entry = false) :
    ofKind start entries = [] :=
  List.filter_eq_nil_iff.mpr fun entry mem ↦ by simp [h entry mem]

theorem ofKind_append (start : Text) (entries entries' : List Text) :
    ofKind start (entries ++ entries') = ofKind start entries ++ ofKind start entries' :=
  List.filter_append entries entries'

theorem isPrefixOf_append (start rest : Text) : start.isPrefixOf (start ++ rest) = true :=
  List.isPrefixOf_iff_prefix.mpr (List.prefix_append start rest)

/-- The entries of one kind among the others. -/
theorem ofKind_between (front entries back : List Text)
    (hfront : ∀ entry ∈ front, start.isPrefixOf entry = false)
    (h : ∀ entry ∈ entries, start.isPrefixOf entry = true)
    (hback : ∀ entry ∈ back, start.isPrefixOf entry = false) :
    ofKind start (front ++ (entries ++ back)) = entries := by
  rw [ofKind_append, ofKind_append, ofKind_none hfront, ofKind_all h, ofKind_none hback, List.append_nil,
    List.nil_append]

section Kinds

variable {inputs : Inputs} (h : inputs.Legible)
include h

theorem ofKind_dependencies : ofKind "project.dependencies=".toList (unsortedEntries inputs) =
    (normalizedTexts inputs.dependencies).map dependencyEntry := by
  rw [unsortedEntries_eq h]
  refine ofKind_between [] _ _ (List.forall_mem_nil _) ?_ ?_
  · exact List.forall_mem_map.mpr fun _ _ ↦ isPrefixOf_append _ _
  · exact List.forall_mem_cons.mpr ⟨rfl, List.forall_mem_cons.mpr ⟨rfl, List.forall_mem_map.mpr fun _ _ ↦ rfl⟩⟩

theorem ofKind_indexUrl : ofKind "tool.pon.index-url=".toList (unsortedEntries inputs) =
    [indexUrlEntry inputs.indexUrl] := by
  rw [unsortedEntries_eq h]
  refine ofKind_between _ [indexUrlEntry inputs.indexUrl] _ ?_ ?_ ?_
  · exact List.forall_mem_map.mpr fun _ _ ↦ rfl
  · exact List.forall_mem_singleton.mpr (isPrefixOf_append _ _)
  · exact List.forall_mem_cons.mpr ⟨rfl, List.forall_mem_map.mpr fun _ _ ↦ rfl⟩

theorem ofKind_allowPrerelease : ofKind "tool.pon.allow-prerelease=".toList (unsortedEntries inputs) =
    [allowPrereleaseEntry inputs.allowPrerelease] := by
  rw [unsortedEntries_eq h,
    ← List.singleton_append (x := indexUrlEntry inputs.indexUrl), ← List.append_assoc]
  refine ofKind_between _ [allowPrereleaseEntry inputs.allowPrerelease] _ ?_ ?_ ?_
  · exact List.forall_mem_append.mpr ⟨List.forall_mem_map.mpr fun _ _ ↦ rfl, List.forall_mem_singleton.mpr rfl⟩
  · exact List.forall_mem_singleton.mpr (isPrefixOf_append _ _)
  · exact List.forall_mem_map.mpr fun _ _ ↦ rfl

theorem ofKind_sources : ofKind "tool.pon.sources.".toList (unsortedEntries inputs) =
    inputs.sources.entries.map fun entry ↦ sourceEntry entry.1 entry.2 := by
  have all := ofKind_between ((normalizedTexts inputs.dependencies).map dependencyEntry ++
      [indexUrlEntry inputs.indexUrl, allowPrereleaseEntry inputs.allowPrerelease])
    (inputs.sources.entries.map fun entry ↦ sourceEntry entry.1 entry.2) []
    (List.forall_mem_append.mpr ⟨List.forall_mem_map.mpr fun _ _ ↦ rfl,
      List.forall_mem_cons.mpr ⟨rfl, List.forall_mem_singleton.mpr rfl⟩⟩)
    (List.forall_mem_map.mpr fun _ _ ↦ isPrefixOf_append "tool.pon.sources.".toList _)
    (List.forall_mem_nil _)
  rw [List.append_nil, List.append_assoc] at all
  rw [unsortedEntries_eq h]
  exact all

end Kinds

/-! ## What the hash tells apart -/

section

variable (ha : a.Legible) (hb : b.Legible)
  (h : (a.sources.entries.map fun entry ↦ sourceEntry entry.1 entry.2).Perm (b.sources.entries.map fun entry ↦ sourceEntry entry.1 entry.2))
include ha hb h

/-- The sources of one are those of the other. -/
theorem mem_sources_of_perm :
    ∀ entry ∈ a.sources.entries, entry ∈ b.sources.entries := by
  intro entry mem
  have listed := h.subset (List.mem_map_of_mem mem)
  obtain ⟨other, mem', same⟩ := List.mem_map.mp listed
  obtain ⟨names, sources⟩ := sourceEntry_inj (hb.sources other mem') (ha.sources entry mem) same
  obtain rfl : other = entry := Prod.ext names sources
  exact mem'

theorem sources_eq_of_perm : a.sources = b.sources := by
  apply OrderedMap.ext
  intro key
  apply Option.ext
  intro source
  rw [← OrderedMap.mem_entries, ← OrderedMap.mem_entries]
  exact ⟨mem_sources_of_perm ha hb h _, mem_sources_of_perm hb ha h.symm _⟩

end

theorem same_of_perm (ha : a.Legible) (hb : b.Legible)
    (h : (unsortedEntries a).Perm (unsortedEntries b)) : a.Same b := by
  have kind : ∀ start : Text, (ofKind start (unsortedEntries a)).Perm (ofKind start (unsortedEntries b)) :=
    fun start ↦ h.filter _
  have dependencies := kind "project.dependencies=".toList
  have indexUrls := kind "tool.pon.index-url=".toList
  have allowPrereleases := kind "tool.pon.allow-prerelease=".toList
  have sources := kind "tool.pon.sources.".toList
  rw [ofKind_dependencies ha, ofKind_dependencies hb] at dependencies
  rw [ofKind_indexUrl ha, ofKind_indexUrl hb, List.perm_singleton] at indexUrls
  rw [ofKind_allowPrerelease ha, ofKind_allowPrerelease hb, List.perm_singleton] at allowPrereleases
  rw [ofKind_sources ha, ofKind_sources hb] at sources
  refine ⟨?_, ?_, ?_, sources_eq_of_perm ha hb sources⟩
  · exact (List.map_perm_map_iff fun _ _ ↦ List.append_cancel_left).mp dependencies
  · exact getD_inj (fun url mem ↦ (ha.indexUrl url mem).1) (fun url mem ↦ (hb.indexUrl url mem).1)
      (List.append_cancel_left (List.singleton_inj.mp indexUrls))
  · have texts := List.append_cancel_left (List.singleton_inj.mp allowPrereleases)
    revert texts
    cases a.allowPrerelease <;> cases b.allowPrerelease <;> decide

theorem hashEntries_eq_iff :
    hashEntries a.dependencies (extraEntries a) = hashEntries b.dependencies (extraEntries b) ↔
      (unsortedEntries a).Perm (unsortedEntries b) := by
  have permA : (hashEntries a.dependencies (extraEntries a)).Perm (unsortedEntries a) :=
    List.perm_insertionSort _ _
  have permB : (hashEntries b.dependencies (extraEntries b)).Perm (unsortedEntries b) :=
    List.perm_insertionSort _ _
  constructor
  · intro same
    exact permA.symm.trans (same ▸ permB)
  · intro perm
    exact (permA.trans (perm.trans permB.symm)).eq_of_pairwise' (List.pairwise_insertionSort _ _)
      (List.pairwise_insertionSort _ _)

theorem bytes_injective : Function.Injective Text.bytes := by
  intro a b same
  have encoded : a.utf8Encode = b.utf8Encode := congrArg List.toByteArray same
  have strings : String.ofList a = String.ofList b := by
    apply String.toByteArray_inj.mp
    simpa using encoded
  simpa using congrArg String.toList strings

theorem hashInput_of_same (h : a.Same b) :
    hashInput a.dependencies (extraEntries a) = hashInput b.dependencies (extraEntries b) := by
  have perm : (unsortedEntries a).Perm (unsortedEntries b) := by
    unfold unsortedEntries extraEntries
    rw [h.indexUrl, h.allowPrerelease, h.sources]
    exact (h.dependencies.map dependencyEntry).append_right _
  unfold hashInput
  rw [hashEntries_eq_iff.mpr perm]

theorem hashEntries_eq_of_hashInput (ha : a.Legible) (hb : b.Legible)
    (h : hashInput a.dependencies (extraEntries a) = hashInput b.dependencies (extraEntries b)) :
    hashEntries a.dependencies (extraEntries a) = hashEntries b.dependencies (extraEntries b) := by
  have entries : ∀ inputs : Inputs, inputs.Legible →
      (∀ entry ∈ hashEntries inputs.dependencies (extraEntries inputs), IsEntry entry) ∧
        hashEntries inputs.dependencies (extraEntries inputs) ≠ [] := by
    intro inputs legible
    have perm : (hashEntries inputs.dependencies (extraEntries inputs)).Perm (unsortedEntries inputs) :=
      List.perm_insertionSort _ _
    refine ⟨fun entry mem ↦ isEntry_of_legible legible entry (perm.subset mem), fun none ↦ ?_⟩
    rw [none, unsortedEntries_eq legible] at perm
    exact absurd (List.nil_perm.mp perm) (List.append_ne_nil_of_right_ne_nil _ (List.cons_ne_nil _ _))
  obtain ⟨entriesA, nonemptyA⟩ := entries a ha
  obtain ⟨entriesB, nonemptyB⟩ := entries b hb
  exact eq_of_intercalate_eq entriesA entriesB nonemptyA nonemptyB (bytes_injective h)

/-- The same inputs have the same hash, in any order of their entries. Where SHA-256 does not collide on
two legible inputs, they have the same hash only if they are the same, and the same bytes only if they have
the same entries. -/
theorem projectInputHash_iff (project project' : PyProject)
    (indexUrl indexUrl' : Option Text) (allowPrerelease allowPrerelease' : Option Bool)
    (noCollision : let a := projectInputs project indexUrl allowPrerelease
      let b := projectInputs project' indexUrl' allowPrerelease'
      sha256Hex (hashInput a.dependencies (extraEntries a)) =
          sha256Hex (hashInput b.dependencies (extraEntries b)) →
        hashInput a.dependencies (extraEntries a) = hashInput b.dependencies (extraEntries b)) :
    let a := projectInputs project indexUrl allowPrerelease
    let b := projectInputs project' indexUrl' allowPrerelease'
    (a.Same b → computeProjectInputHashWithOverrides sha256Hex project indexUrl allowPrerelease =
      computeProjectInputHashWithOverrides sha256Hex project' indexUrl' allowPrerelease') ∧
    (a.Legible → b.Legible →
      (computeProjectInputHashWithOverrides sha256Hex project indexUrl allowPrerelease =
          computeProjectInputHashWithOverrides sha256Hex project' indexUrl' allowPrerelease' ↔ a.Same b) ∧
      (hashInput a.dependencies (extraEntries a) = hashInput b.dependencies (extraEntries b) →
        hashEntries a.dependencies (extraEntries a) = hashEntries b.dependencies (extraEntries b))) := by
  intro a b
  have equal : a.Same b → computeProjectInputHashWithOverrides sha256Hex project indexUrl allowPrerelease =
      computeProjectInputHashWithOverrides sha256Hex project' indexUrl' allowPrerelease' := fun same ↦
    congrArg (fun bytes ↦ "sha256:".toList ++ sha256Hex bytes) (hashInput_of_same same)
  refine ⟨equal, fun ha hb ↦ ⟨⟨fun hashes ↦ ?_, equal⟩, hashEntries_eq_of_hashInput ha hb⟩⟩
  have bytes := noCollision (List.append_cancel_left hashes)
  exact same_of_perm ha hb (hashEntries_eq_iff.mp (hashEntries_eq_of_hashInput ha hb bytes))

def manifest (dependencies : List Text) (sources : Entries) : PyProject where
  doc := .table
    [("project".toList, .table [("dependencies".toList, .array (dependencies.map .string))]),
      ("tool".toList, .table [("pon".toList, .table [("sources".toList, .table sources)])])]
  path := [.normal "pyproject.toml".toList]

/-- The digests of the two inputs below, which differ in length. -/
def sampleDigest (bytes : List UInt8) : Text :=
  if bytes.length = 110 then "eacbfab435d499f31bb56e66e6b05870f19f0d24c0884d8fc63335af19ff4245".toList
  else "eb13fc7e589b7a2dcfb985aa8ea89d8089bd33b89a9dcc6f8079f1b7e0fa7647".toList

theorem legible_manifest {dependencies : List Text} {indexUrl : Text} (allowPrerelease : Option Bool)
    (hdependencies : ∀ dependency ∈ normalizedTexts dependencies, OneEntry (dependencyEntry dependency))
    (hurl : Trimmed indexUrl) (hentry : OneEntry (indexUrlEntry (some indexUrl))) :
    (projectInputs (manifest dependencies []) (some indexUrl) allowPrerelease).Legible where
  dependencies := by
    have read : (manifest dependencies []).dependencies = dependencies := by
      change (dependencies.map Item.string).filterMap Item.asString? = dependencies
      rw [List.filterMap_map]
      exact List.filterMap_some
    exact fun dependency mem ↦ hdependencies dependency (by
      rw [← read]
      exact mem)
  indexUrl url mem := Option.some.inj mem ▸ hurl
  indexUrlEntry := hentry
  sources entry mem := absurd mem List.not_mem_nil

/-- Two projects that differ in a setting only have different hashes. -/
theorem projectInputHash_iff_setting :
    computeProjectInputHashWithOverrides sampleDigest (manifest ["b>=1".toList, "a==1".toList] [])
        (some "catalog:".toList) (some true) ≠
      computeProjectInputHashWithOverrides sampleDigest (manifest ["a==1".toList, "b>=1".toList] [])
        (some "catalog:".toList) (some false) := by
  intro same
  have url : Trimmed "catalog:".toList := by
    refine ⟨List.cons_ne_nil _ _, fun c last ↦ ?_⟩
    obtain rfl : ':' = c := Option.some.inj last
    decide
  have inputs := (projectInputHash_iff sampleDigest (manifest ["b>=1".toList, "a==1".toList] [])
    (manifest ["a==1".toList, "b>=1".toList] []) (some "catalog:".toList) (some "catalog:".toList)
    (some true) (some false) (fun digests ↦ absurd digests (by decide +kernel))).2
    (legible_manifest _ (by decide) url (by decide)) (legible_manifest _ (by decide) url (by decide))
  exact absurd (inputs.1.mp same).allowPrerelease (by decide)

/-! ## Different inputs with one hash -/

def gitSource (git : Text) (rev : Option Text) : Entries :=
  [("a".toList, .inlineTable (("git".toList, .string git) ::
    (rev.map fun rev ↦ ("rev".toList, Item.string rev)).toList))]

/-- The inputs of two projects are different and are hashed as the same bytes. -/
structure Collide (a b : Inputs) : Prop where
  different : ¬a.Same b
  bytes : hashInput a.dependencies (extraEntries a) = hashInput b.dependencies (extraEntries b)

/-- A line feed in a dependency, a label in a URL, and an empty index URL: the inputs are different and
have one hash, whatever the hash function. -/
theorem projectInputHash_collisions :
    Collide (projectInputs (manifest ["a\nproject.dependencies=b".toList] []) none none)
      (projectInputs (manifest ["a".toList, "b".toList] []) none none) ∧
    Collide (projectInputs (manifest [] (gitSource "u rev:v".toList none)) none none)
      (projectInputs (manifest [] (gitSource "u".toList (some "v rev:".toList))) none none) ∧
    Collide (projectInputs (manifest [] []) (some []) none) (projectInputs (manifest [] []) none none) ∧
    ∀ sha256Hex : List UInt8 → Text,
      computeProjectInputHashWithOverrides sha256Hex
          (manifest ["a\nproject.dependencies=b".toList] []) none none =
        computeProjectInputHashWithOverrides sha256Hex (manifest ["a".toList, "b".toList] []) none none := by
  have lineFeed : hashInput ["a\nproject.dependencies=b".toList]
      (extraEntries (projectInputs (manifest ["a\nproject.dependencies=b".toList] []) none none)) =
      hashInput ["a".toList, "b".toList]
        (extraEntries (projectInputs (manifest ["a".toList, "b".toList] []) none none)) := by
    decide +kernel
  refine ⟨⟨fun same ↦ absurd same.dependencies.length_eq (by decide), lineFeed⟩, ⟨fun same ↦ ?_, by decide +kernel⟩,
    ⟨fun same ↦ absurd same.indexUrl (by decide), by decide +kernel⟩,
    fun sha256Hex ↦ congrArg (fun bytes ↦ "sha256:".toList ++ sha256Hex bytes) lineFeed⟩
  have sources := congrArg OrderedMap.entries same.sources
  exact absurd sources (by decide +kernel)

end Pon.Lock
