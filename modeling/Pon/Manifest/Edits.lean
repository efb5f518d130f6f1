import Pon.Manifest.Requirement

/-!
# Edits of a manifest

Adding and removing dependencies goes through a map of the dependency strings by their names, so that of
several strings of one name only the last one is kept. A source is written under the normalized name and
removed from there only, while every spelling of the name is read.
-/

namespace Pon.Manifest

open Package Paths Toml

namespace PyProject

variable (ctx : Context) (project : PyProject)

def dependenciesName : Text := "dependencies".toList

def setDependencyStrings (dependencies : List Text) : PyProject :=
  { project with
    doc := project.doc.updateTable
      (Entries.insert dependenciesName (.array (dependencies.map .string))) ["project".toList] }

/-- The name of a dependency string of the manifest. -/
def nameOf (raw : Text) : Except Error Text :=
  dependencyNormalizedName ctx raw project.baseDir

/-- The dependency strings under their names. -/
def dependencyEntries : List Text → Except Error (List (Text × Text))
  | [] => pure []
  | raw :: rest => do
      let name ← project.nameOf ctx raw
      let entries ← dependencyEntries rest
      pure ((name, raw) :: entries)

def dependencyMap : Except Error (OrderedMap Text Text) := do
  let entries ← project.dependencyEntries ctx project.dependencies
  pure (OrderedMap.empty.insertAll entries)

/-- The result tells whether the name is new. -/
def addDependency (raw : Text) : Except Error Bool × PyProject :=
  match project.nameOf ctx raw with
  | .error error => (.error error, project)
  | .ok normalized =>
      match project.dependencyMap ctx with
      | .error error => (.error error, project)
      | .ok dependencies =>
          (.ok (dependencies.get? normalized).isNone,
            project.setDependencyStrings (dependencies.insert normalized (trim raw)).values)

/-- The result tells whether the name was there. -/
def removeDependency (name : Text) : Except Error Bool × PyProject :=
  if isValidName name then
    match project.dependencyMap ctx with
    | .error error => (.error error, project)
    | .ok dependencies =>
        (.ok (dependencies.get? (Package.normalize name)).isSome,
          project.setDependencyStrings (dependencies.erase (Package.normalize name)).values)
  else (.error (.invalidName name), project)

def sourcePathForWrite (path : Path) : Text :=
  if ¬ IsAbsolute path then display path
  else
    let absoluteBase :=
      if IsAbsolute project.baseDir then project.baseDir
      else
        match ctx.currentDir with
        | some current => join current project.baseDir
        | none => [.curDir]
    let relative := (Paths.stripPrefix absoluteBase path).filter fun relative ↦ relative ≠ []
    display (relative.getD path)

/-- The entry of a source. -/
def sourceEntry (source : PonSource) : Entries :=
  (match source.path with
    | some path => ("path".toList, .string (project.sourcePathForWrite ctx path)) ::
        if source.editable then [("editable".toList, .boolean true)] else []
    | none => []) ++
  (source.git.map fun git ↦ ("git".toList, Item.string git)).toList ++
  (source.rev.map fun rev ↦ ("rev".toList, Item.string rev)).toList

def setSource (name : Text) (source : PonSource) : PyProject :=
  { project with
    doc := project.doc.updateTable
      (Entries.insert (Package.normalize name) (.inlineTable (project.sourceEntry ctx source))) sourcesPath }

/-- The result tells whether there was a source under the normalized name. -/
def removeSource (name : Text) : Bool × PyProject :=
  ((Entries.get? (Package.normalize name) project.sourceEntries).isSome,
    { project with
      doc := project.doc.modifyTable (Entries.remove (Package.normalize name)) sourcesPath })

end PyProject

section Dependencies

variable {ctx : Context} {project : PyProject}

/-- The dependency strings of a name. -/
def PyProject.named (ctx : Context) (project : PyProject) (name : Text) : List Text :=
  project.dependencies.filter fun raw ↦ decide (project.nameOf ctx raw = .ok name)

theorem stringArrayValues_map (texts : List Text) :
    PyProject.stringArrayValues (texts.map .string) = texts := by
  unfold PyProject.stringArrayValues
  rw [List.filterMap_map]
  exact List.filterMap_some

theorem dependencies_setDependencyStrings (project : PyProject) (dependencies : List Text) :
    (project.setDependencyStrings dependencies).dependencies = dependencies := by
  have hpath : ["project".toList, "dependencies".toList] =
      ["project".toList] ++ [PyProject.dependenciesName] := rfl
  unfold PyProject.dependencies PyProject.stringArrayAt PyProject.setDependencyStrings
  dsimp only
  rw [hpath, Item.itemAt_append, Item.itemAt_updateTable, Option.bind_some, Item.itemAt_cons rfl,
    Entries.get?_insert_self, Option.bind_some, Item.itemAt_nil]
  exact stringArrayValues_map dependencies

theorem dependencyEntries_filter {raws : List Text} {entries : List (Text × Text)}
    (h : project.dependencyEntries ctx raws = .ok entries) (name : Text) :
    (entries.filter fun entry ↦ decide (entry.1 = name)).map Prod.snd =
      raws.filter fun raw ↦ decide (project.nameOf ctx raw = .ok name) := by
  induction raws generalizing entries with
  | nil =>
    cases h
    rfl
  | cons raw rest ih =>
    unfold PyProject.dependencyEntries at h
    cases hname : project.nameOf ctx raw with
    | error _ =>
      rw [hname] at h
      cases h
    | ok found =>
      cases hrest : project.dependencyEntries ctx rest with
      | error _ =>
        rw [hname, hrest] at h
        cases h
      | ok others =>
        rw [hname, hrest] at h
        cases h
        by_cases hfound : found = name
        · rw [List.filter_cons_of_pos (by simpa using hfound), List.map_cons, ih hrest,
            List.filter_cons_of_pos (by simpa [hname] using hfound)]
        · rw [List.filter_cons_of_neg (by simpa using hfound), ih hrest,
            List.filter_cons_of_neg (by simpa [hname] using hfound)]

variable {dependencies : OrderedMap Text Text} {name : Text}

section

variable (h : project.dependencyMap ctx = .ok dependencies)
include h

/-- The map keeps the last string of each name. -/
theorem dependencyMap_get? (name : Text) :
    dependencies.get? name = (project.named ctx name).getLast? := by
  unfold PyProject.dependencyMap at h
  cases hentries : project.dependencyEntries ctx project.dependencies with
  | error _ =>
    rw [hentries] at h
    cases h
  | ok entries =>
    rw [hentries] at h
    cases h
    have hstrings := congrArg List.getLast? (dependencyEntries_filter hentries name)
    rw [List.getLast?_map] at hstrings
    rw [OrderedMap.get?_insertAll, OrderedMap.get?_empty, Option.or_none]
    unfold PyProject.named
    convert hstrings

theorem nameOf_of_get? {raw : Text}
    (hraw : dependencies.get? name = some raw) : project.nameOf ctx raw = .ok name := by
  rw [dependencyMap_get? h] at hraw
  exact of_decide_eq_true (List.mem_filter.mp (List.mem_of_getLast? hraw)).2

end

/-- The strings of a name after the manifest has been rewritten from a map. -/
theorem named_setDependencyStrings
    (h : ∀ name raw, dependencies.get? name = some raw → project.nameOf ctx raw = .ok name)
    (name : Text) : (project.setDependencyStrings dependencies.values).named ctx name =
      (dependencies.get? name).toList := by
  have hbase : ∀ raw, (project.setDependencyStrings dependencies.values).nameOf ctx raw =
      project.nameOf ctx raw := fun _ ↦ rfl
  unfold PyProject.named
  rw [dependencies_setDependencyStrings]
  apply OrderedMap.filter_values
  intro other raw hraw
  rw [hbase, h other raw hraw, decide_eq_true_eq]
  exact ⟨Except.ok.inj, congrArg _⟩

/-- The name has one string after the addition, and every other name its last one. -/
theorem named_addDependency {raw : Text} (hname : project.nameOf ctx raw = .ok name) {added : Bool}
    {after : PyProject} (h : project.addDependency ctx raw = (.ok added, after)) (other : Text) :
    after.named ctx other =
      if other = name then [trim raw] else (project.named ctx other).getLast?.toList := by
  unfold PyProject.addDependency at h
  rw [hname] at h
  cases hmap : project.dependencyMap ctx with
  | error _ =>
    rw [hmap] at h
    cases h
  | ok dependencies =>
    rw [hmap] at h
    cases h
    rw [named_setDependencyStrings, OrderedMap.get?_insert]
    · split
      · rfl
      · rw [dependencyMap_get? hmap]
    · intro key value hvalue
      rw [OrderedMap.get?_insert] at hvalue
      split at hvalue
      · rename_i hkey
        cases hvalue
        exact hkey ▸ (dependencyNormalizedName_trim ctx raw project.baseDir).trans hname
      · exact nameOf_of_get? hmap hvalue

theorem named_removeDependency {removed : Bool} {after : PyProject}
    (h : project.removeDependency ctx name = (.ok removed, after)) (other : Text) :
    after.named ctx other =
      if other = Package.normalize name then [] else (project.named ctx other).getLast?.toList := by
  unfold PyProject.removeDependency at h
  split at h
  · cases hmap : project.dependencyMap ctx with
    | error _ =>
      rw [hmap] at h
      cases h
    | ok dependencies =>
      rw [hmap] at h
      cases h
      rw [named_setDependencyStrings, OrderedMap.get?_erase]
      · split
        · rfl
        · rw [dependencyMap_get? hmap]
      · intro key value hvalue
        rw [OrderedMap.get?_erase] at hvalue
        split at hvalue
        · cases hvalue
        · exact nameOf_of_get? hmap hvalue
  · cases h

/-- The last element occurs as often as every element does only in a list of at most one. -/
theorem count_getLast?_iff {α : Type} [BEq α] [LawfulBEq α] (l : List α) :
    (∀ a ∈ l, l.getLast?.toList.count a = l.count a) ↔ l.length ≤ 1 := by
  constructor
  · intro h
    rcases List.eq_nil_or_concat l with rfl | ⟨front, last, rfl⟩
    · exact Nat.zero_le 1
    · rcases front with _ | ⟨first, front⟩
      · exact le_rfl
      · have hcount := h first (by simp)
        rw [List.concat_eq_append, List.getLast?_concat, List.cons_append, List.count_cons_self,
          List.count_append] at hcount
        dsimp only [Option.toList] at hcount
        omega
  · intro h a _
    match l, h with
    | [], _ => rfl
    | [_], _ => rfl

end Dependencies

end Pon.Manifest
