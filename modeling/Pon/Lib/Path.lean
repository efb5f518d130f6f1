import Mathlib.Data.List.Basic

/-!
# Unix paths

A path is the list of its components, as the path libraries of Unix systems iterate over them:
repeated and trailing separators are left out, and so is a `.`, unless it comes first in a relative
path. The location of a path is read off its text, without a file system and thus without symbolic
links: a `..` cancels the name before it, and leads up from the start of a relative path if there is
none.
-/

namespace Pon.Paths

inductive Component where
  | rootDir
  | curDir
  | parentDir
  | normal (name : List Char)
deriving DecidableEq

abbrev Path := List Component

/-- The component that a piece between separators stands for. -/
def pieceComponent (piece : List Char) : Component :=
  if piece = ['.', '.'] then .parentDir else .normal piece

def components (text : List Char) : Path :=
  let pieces := text.splitOn '/'
  let path := (pieces.filter fun piece ↦ piece ≠ [] ∧ piece ≠ ['.']).map pieceComponent
  if text.head? = some '/' then .rootDir :: path
  else if pieces.head? = some ['.'] then .curDir :: path
  else path

def Component.text : Component → List Char
  | .rootDir => []
  | .curDir => ['.']
  | .parentDir => ['.', '.']
  | .normal name => name

/-- The text of a path without redundant separators. -/
def display : Path → List Char
  | [.rootDir] => ['/']
  | path => ['/'].intercalate (path.map Component.text)

def IsAbsolute (path : Path) : Prop := path.head? = some .rootDir

instance : DecidablePred IsAbsolute := fun path ↦ inferInstanceAs (Decidable (path.head? = _))

def join (base path : Path) : Path :=
  match path with
  | .rootDir :: _ => path
  | .curDir :: rest => if base = [] then path else base ++ rest
  | path => base ++ path

def parent (path : Path) : Option Path :=
  match path.getLast? with
  | none | some .rootDir => none
  | some _ => some path.dropLast

def fileName (path : Path) : Option (List Char) :=
  match path.getLast? with
  | some (.normal name) => some name
  | _ => none

def stripPrefix (root path : Path) : Option Path :=
  if root <+: path then some (path.drop root.length) else none

/-- A path whose components are all names. -/
def Plain (path : Path) : Prop := ∀ component ∈ path, ∃ name, component = .normal name

/-- The names in a path. -/
def names (path : Path) : List (List Char) :=
  path.filterMap fun component ↦
    match component with
    | .normal name => some name
    | _ => none

@[simp] theorem plain_nil : Plain [] := fun _ h ↦ by cases h

theorem plain_append {a b : Path} : Plain (a ++ b) ↔ Plain a ∧ Plain b := by
  simp only [Plain, List.mem_append, or_imp, forall_and]

theorem plain_singleton (name : List Char) : Plain [.normal name] := by
  intro component h
  exact ⟨name, List.mem_singleton.mp h⟩

@[simp] theorem names_normal (name : List Char) (path : Path) :
    names (.normal name :: path) = name :: names path := rfl

variable {path : Path} {name text : List Char}

section

variable (h : Plain path)
include h

theorem Plain.eq_names : path = (names path).map .normal := by
  induction path with
  | nil => rfl
  | cons component rest ih =>
    obtain ⟨name, rfl⟩ := h component List.mem_cons_self
    rw [names_normal, List.map_cons, ← ih fun other hother ↦ h other (List.mem_cons_of_mem _ hother)]

theorem Plain.names_ne_nil (hne : path ≠ []) : names path ≠ [] := by
  intro hnil
  rw [h.eq_names, hnil] at hne
  exact hne rfl

theorem Plain.join (base : Path) : join base path = base ++ path := by
  cases path with
  | nil => rfl
  | cons component rest =>
    obtain ⟨name, rfl⟩ := h component List.mem_cons_self
    rfl

theorem Plain.parent (hne : path ≠ []) (base : Path) :
    parent (base ++ path) = some (base ++ path.dropLast) := by
  obtain ⟨name, hlast⟩ := h _ (List.getLast_mem hne)
  have hget : (base ++ path).getLast? = some (.normal name) := by
    rw [List.getLast?_append_of_ne_nil _ hne, List.getLast?_eq_some_getLast hne, hlast]
  unfold Paths.parent
  rw [hget, List.dropLast_append_of_ne_nil hne]

theorem Plain.dropLast : Plain path.dropLast :=
  fun component hmem ↦ h component ((List.dropLast_sublist path).subset hmem)

end

/-- Where a path leads: whether it starts at the root, how often it goes up from where it starts, and
the names that it descends by. -/
structure Location where
  absolute : Bool
  ups : ℕ
  names : List (List Char)
deriving DecidableEq

def Location.enter (location : Location) : Component → Location
  | .rootDir => { absolute := true, ups := 0, names := [] }
  | .curDir => location
  | .parentDir =>
      if location.names ≠ [] then { location with names := location.names.dropLast }
      else if location.absolute then location
      else { location with ups := location.ups + 1 }
  | .normal name => { location with names := location.names ++ [name] }

def Location.here : Location where
  absolute := false
  ups := 0
  names := []

def location (path : Path) : Location :=
  path.foldl Location.enter .here

theorem location_append (a b : Path) : location (a ++ b) = b.foldl Location.enter (location a) :=
  List.foldl_append

theorem location_append_plain (base : Path) (h : Plain path) :
    location (base ++ path) = { location base with names := (location base).names ++ names path } := by
  rw [location_append]
  generalize location base = start
  induction path generalizing start with
  | nil => simp [names]
  | cons component rest ih =>
    obtain ⟨name, rfl⟩ := h component List.mem_cons_self
    rw [List.foldl_cons, ih fun other hother ↦ h other (List.mem_cons_of_mem _ hother)]
    simp [Location.enter]

/-- A path leads to a place below the directory. -/
def StrictlyInside (path dir : Path) : Prop :=
  ∃ rest ≠ [], location path = { location dir with names := (location dir).names ++ rest }

theorem strictlyInside_append (dir : Path) (h : Plain path) (hne : path ≠ []) :
    StrictlyInside (dir ++ path) dir :=
  ⟨names path, h.names_ne_nil hne, location_append_plain dir h⟩

/-- Plain paths below one directory lead to one place only if they are the same. -/
theorem location_append_inj (dir : Path) {a b : Path} (ha : Plain a) (hb : Plain b) :
    location (dir ++ a) = location (dir ++ b) ↔ a = b := by
  rw [location_append_plain dir ha, location_append_plain dir hb]
  constructor
  · intro h
    have hnames := congrArg Location.names h
    rw [ha.eq_names, hb.eq_names, List.append_cancel_left hnames]
  · rintro rfl
    rfl

theorem not_mem_of_mem_splitOn {α : Type*} [BEq α] [LawfulBEq α] (a : α) (l : List α) :
    ∀ piece ∈ l.splitOn a, a ∉ piece := by
  induction l with
  | nil => simp
  | cons first rest ih =>
    rw [List.splitOn_cons_eq_if_modifyHead]
    split
    · intro piece hpiece
      rcases List.mem_cons.mp hpiece with rfl | hin
      · exact List.not_mem_nil
      · exact ih piece hin
    · rename_i hne
      cases hsplit : rest.splitOn a with
      | nil => exact fun _ h ↦ by cases h
      | cons head tail =>
        rw [hsplit] at ih
        intro piece hpiece
        rcases List.mem_cons.mp hpiece with rfl | hin
        · have hhead := ih head List.mem_cons_self
          simp only [List.mem_cons, not_or]
          exact ⟨fun heq ↦ hne (by simp [heq]), hhead⟩
        · exact ih piece (List.mem_cons_of_mem _ hin)

theorem mem_of_mem_splitOn {α : Type*} [BEq α] (a : α) (l : List α) :
    ∀ piece ∈ l.splitOn a, piece ⊆ l := by
  induction l with
  | nil => simp
  | cons first rest ih =>
    rw [List.splitOn_cons_eq_if_modifyHead]
    split
    · intro piece hpiece
      rcases List.mem_cons.mp hpiece with rfl | hin
      · exact List.nil_subset _
      · exact List.Subset.trans (ih piece hin) (List.subset_cons_self _ _)
    · cases hsplit : rest.splitOn a with
      | nil => exact fun _ h ↦ by cases h
      | cons head tail =>
        rw [hsplit] at ih
        intro piece hpiece
        rcases List.mem_cons.mp hpiece with rfl | hin
        · exact List.cons_subset_cons _ (ih head List.mem_cons_self)
        · exact List.Subset.trans (ih piece (List.mem_cons_of_mem _ hin)) (List.subset_cons_self _ _)

theorem components_name (hslash : '/' ∉ name) (hempty : name ≠ []) (hdot : name ≠ ['.'])
    (hdots : name ≠ ['.', '.']) : components name = [.normal name] := by
  have hhead : name.head? ≠ some '/' := fun h ↦ hslash (List.mem_of_head? h)
  simp [components, List.splitOn_eq_singleton hslash, hhead, hempty, hdot, pieceComponent, hdots]

/-- Names in a text do not contain separators. -/
theorem not_slash_of_mem_components (h : .normal name ∈ components text) : '/' ∉ name := by
  have hpieces : ∀ component ∈ ((text.splitOn '/').filter fun piece ↦ piece ≠ [] ∧ piece ≠ ['.']).map
      pieceComponent, component = .normal name → '/' ∉ name := by
    intro component hmem heq
    obtain ⟨piece, hpiece, rfl⟩ := List.mem_map.mp hmem
    unfold pieceComponent at heq
    split at heq
    · cases heq
    · cases heq
      exact not_mem_of_mem_splitOn '/' text _ (List.mem_filter.mp hpiece).1
  unfold components at h
  dsimp only at h
  split at h
  · rcases List.mem_cons.mp h with heq | hin
    · cases heq
    · exact hpieces _ hin rfl
  · split at h
    · rcases List.mem_cons.mp h with heq | hin
      · cases heq
      · exact hpieces _ hin rfl
    · exact hpieces _ h rfl

theorem fileName_no_slash (h : fileName (components text) = some name) : '/' ∉ name := by
  have hmem : .normal name ∈ components text := by
    unfold fileName at h
    split at h
    · rename_i hlast
      cases h
      exact List.mem_of_getLast? hlast
    · cases h
  exact not_slash_of_mem_components hmem

/-- A text that has no dot and does not start at the root is a plain path. -/
theorem components_plain (hdot : '.' ∉ text) (hroot : '/' ∉ text) : Plain (components text) := by
  have hhead : text.head? ≠ some '/' := fun h ↦ hroot (List.mem_of_head? h)
  have hne : text ≠ ['.'] := fun h ↦ hdot (by simp [h])
  have hne' : text ≠ ['.', '.'] := fun h ↦ hdot (by simp [h])
  intro component hmem
  simp [components, List.splitOn_eq_singleton hroot, hhead, hne] at hmem
  obtain ⟨_, rfl⟩ := hmem
  exact ⟨text, if_neg hne'⟩

end Pon.Paths
