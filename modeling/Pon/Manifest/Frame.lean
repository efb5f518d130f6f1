import Pon.Manifest.Edits

/-!
# What edits change

A dependency edit keeps the strings of the other names exactly if none of them has two strings. A source
that has been set is read again exactly if no other spelling of its name comes later and its path is
resolved to what it was written for; a removal is complete exactly if there is no other spelling.
-/

namespace Pon.Manifest

open Package Paths Toml

/-! ## Dependencies -/

section Dependencies

variable (ctx : Context)

/-- The dependency strings of the other names are there as often as before. -/
def KeepsOthers (before after : PyProject) (name : Text) : Prop :=
  ∀ other raw, other ≠ name → raw ∈ before.dependencies → before.nameOf ctx raw = .ok other →
    after.dependencies.count raw = before.dependencies.count raw

structure AddsDependency (before after : PyProject) (name raw : Text) : Prop where
  replaced : after.named ctx name = [trim raw]
  others : KeepsOthers ctx before after name

structure RemovesDependency (before after : PyProject) (name : Text) : Prop where
  removed : after.named ctx name = []
  others : KeepsOthers ctx before after name

/-- Every other name has at most one dependency string. -/
def OthersOnce (project : PyProject) (name : Text) : Prop :=
  ∀ other, other ≠ name → (project.named ctx other).length ≤ 1

variable {ctx} {before after : PyProject}

variable {raw name : Text}

theorem count_named {project : PyProject} (h : project.nameOf ctx raw = .ok name) :
    (project.named ctx name).count raw = project.dependencies.count raw :=
  List.count_filter (decide_eq_true h)

/-- An edit that keeps the last string of the other names. -/
theorem keepsOthers_iff (hpath : after.path = before.path)
    (h : ∀ other, other ≠ name → after.named ctx other = (before.named ctx other).getLast?.toList) :
    KeepsOthers ctx before after name ↔ OthersOnce ctx before name := by
  have hnameOf : ∀ raw, after.nameOf ctx raw = before.nameOf ctx raw := by
    intro raw
    unfold PyProject.nameOf PyProject.baseDir
    rw [hpath]
  have hcount : ∀ other raw, other ≠ name → before.nameOf ctx raw = .ok other →
      after.dependencies.count raw = (before.named ctx other).getLast?.toList.count raw := by
    intro other raw hother hraw
    rw [← h other hother, count_named ((hnameOf raw).trans hraw)]
  constructor
  · intro hkeeps other hother
    refine (count_getLast?_iff _).mp fun raw hraw ↦ ?_
    obtain ⟨hin, hname⟩ := List.mem_filter.mp hraw
    have hname := of_decide_eq_true hname
    rw [← hcount other raw hother hname, hkeeps other raw hother hin hname, count_named hname]
  · intro honce other raw hother hin hname
    have hraw : raw ∈ before.named ctx other := List.mem_filter.mpr ⟨hin, decide_eq_true hname⟩
    rw [hcount other raw hother hname, (count_getLast?_iff _).mpr (honce other hother) raw hraw,
      count_named hname]

variable {result : Except Error Bool} {error : Error}

theorem addDependency_path (h : before.addDependency ctx raw = (result, after)) :
    after.path = before.path := by
  unfold PyProject.addDependency at h
  cases hname : before.nameOf ctx raw <;> rw [hname] at h
  · cases h
    rfl
  · cases hmap : before.dependencyMap ctx <;> rw [hmap] at h <;> cases h <;> rfl

theorem removeDependency_path (h : before.removeDependency ctx name = (result, after)) :
    after.path = before.path := by
  unfold PyProject.removeDependency at h
  split at h
  · cases hmap : before.dependencyMap ctx <;> rw [hmap] at h <;> cases h <;> rfl
  · cases h
    rfl

theorem addsDependency_iff {added : Bool} (hname : before.nameOf ctx raw = .ok name)
    (h : before.addDependency ctx raw = (.ok added, after)) :
    AddsDependency ctx before after name raw ↔ OthersOnce ctx before name := by
  have hnamed := named_addDependency hname h
  have hothers : KeepsOthers ctx before after name ↔ OthersOnce ctx before name :=
    keepsOthers_iff (addDependency_path h) fun other hother ↦ by rw [hnamed, if_neg hother]
  have hreplaced : after.named ctx name = [trim raw] := by rw [hnamed, if_pos rfl]
  exact ⟨fun hadds ↦ hothers.mp hadds.others, fun honce ↦ ⟨hreplaced, hothers.mpr honce⟩⟩

theorem removesDependency_iff {removed : Bool}
    (h : before.removeDependency ctx name = (.ok removed, after)) :
    RemovesDependency ctx before after (Package.normalize name) ↔
      OthersOnce ctx before (Package.normalize name) := by
  have hnamed := named_removeDependency h
  have hothers : KeepsOthers ctx before after (Package.normalize name) ↔
      OthersOnce ctx before (Package.normalize name) :=
    keepsOthers_iff (removeDependency_path h) fun other hother ↦ by rw [hnamed, if_neg hother]
  have hremoved : after.named ctx (Package.normalize name) = [] := by rw [hnamed, if_pos rfl]
  exact ⟨fun hremoves ↦ hothers.mp hremoves.others, fun honce ↦ ⟨hremoved, hothers.mpr honce⟩⟩

/-- An edit that fails leaves the manifest alone. -/
theorem addDependency_error (h : before.addDependency ctx raw = (.error error, after)) :
    after = before := by
  unfold PyProject.addDependency at h
  cases hname : before.nameOf ctx raw <;> rw [hname] at h
  · cases h
    rfl
  · cases hmap : before.dependencyMap ctx <;> rw [hmap] at h <;> cases h
    rfl

theorem removeDependency_error (h : before.removeDependency ctx name = (.error error, after)) :
    after = before := by
  unfold PyProject.removeDependency at h
  split at h
  · cases hmap : before.dependencyMap ctx <;> rw [hmap] at h <;> cases h
    rfl
  · cases h
    rfl

end Dependencies

/-! ## Sources -/

section Sources

/-- The entry can be read. -/
def PyProject.Readable (project : PyProject) (entry : Text × Item) : Prop :=
  ∃ source, project.readSource entry.1 entry.2 = .ok source

/-- The last entry whose key is a spelling of the name. -/
def lastSpelled (entries : Entries) (name : Text) : Option (Text × Item) :=
  (entries.filter fun entry ↦ decide (Package.normalize entry.1 = name)).getLast?

variable {project : PyProject}

variable {entries : Entries} {name : Text} {source : PonSource}

theorem readSources_ok {sources : List (Text × PonSource)}
    (h : project.readSources entries = .ok sources) :
    (∀ entry ∈ entries, project.Readable entry) ∧
    ∀ name, ((sources.filter fun source ↦ decide (source.1 = name)).getLast?.map fun source ↦
        Except.ok source.2) =
      (lastSpelled entries name).map fun entry ↦ project.readSource entry.1 entry.2 := by
  unfold lastSpelled
  induction entries generalizing sources with
  | nil =>
    cases h
    exact ⟨fun _ hmem ↦ absurd hmem List.not_mem_nil, fun _ ↦ rfl⟩
  | cons entry rest ih =>
    unfold PyProject.readSources at h
    cases hsource : project.readSource entry.1 entry.2 with
    | error _ =>
      rw [hsource] at h
      cases h
    | ok source =>
      cases hothers : project.readSources rest with
      | error _ =>
        rw [hsource, hothers] at h
        cases h
      | ok others =>
        rw [hsource, hothers] at h
        cases h
        obtain ⟨hreadable, hlast⟩ := ih hothers
        refine ⟨fun other hother ↦ ?_, fun name ↦ ?_⟩
        · rcases List.mem_cons.mp hother with rfl | hin
          · exact ⟨source, hsource⟩
          · exact hreadable other hin
        · have hlast := hlast name
          by_cases hname : Package.normalize entry.1 = name
          · rw [List.filter_cons_of_pos (by simpa using hname),
              List.filter_cons_of_pos (by simpa using hname), List.getLast?_cons, List.getLast?_cons]
            revert hlast
            cases (others.filter fun source ↦ decide (source.1 = name)).getLast? <;>
              cases (rest.filter fun entry ↦ decide (Package.normalize entry.1 = name)).getLast? <;>
              intro hlast
            · exact congrArg some hsource.symm
            · cases hlast
            · cases hlast
            · exact hlast
          · rw [List.filter_cons_of_neg (by simpa using hname),
              List.filter_cons_of_neg (by simpa using hname)]
            exact hlast

theorem exists_readSources (h : ∀ entry ∈ entries, project.Readable entry) :
    ∃ sources, project.readSources entries = .ok sources := by
  induction entries with
  | nil => exact ⟨[], rfl⟩
  | cons entry rest ih =>
    obtain ⟨source, hsource⟩ := h entry List.mem_cons_self
    obtain ⟨others, hothers⟩ := ih fun other hother ↦ h other (List.mem_cons_of_mem _ hother)
    refine ⟨(Package.normalize entry.1, source) :: others, ?_⟩
    unfold PyProject.readSources
    rw [hsource, hothers]
    rfl

/-- A source is read from the last spelling of its name, if all entries can be read. -/
theorem sources_get? (name : Text) :
    ((∀ entry ∈ project.sourceEntries, project.Readable entry) ∧
      (project.sources.get? name).map Except.ok = (lastSpelled project.sourceEntries name).map fun entry ↦
        project.readSource entry.1 entry.2) ∨
    ((∃ entry ∈ project.sourceEntries, ¬ project.Readable entry) ∧ project.sources.get? name = none) := by
  by_cases hall : ∀ entry ∈ project.sourceEntries, project.Readable entry
  · left
    obtain ⟨sources, hsources⟩ := exists_readSources hall
    have hget : project.sources = OrderedMap.empty.insertAll sources := by
      unfold PyProject.sources PyProject.parseSources
      rw [hsources]
      rfl
    refine ⟨hall, ?_⟩
    rw [hget, OrderedMap.get?_insertAll, OrderedMap.get?_empty, Option.or_none, Option.map_map,
      ← (readSources_ok hsources).2 name]
    refine congrArg (fun p ↦ (sources.filter p).getLast?.map (Except.ok ∘ Prod.snd)) ?_
    exact funext fun entry ↦ decide_eq_decide.mpr Iff.rfl
  · right
    have hnone : project.sources = .empty := by
      unfold PyProject.sources PyProject.parseSources
      cases hsources : project.readSources project.sourceEntries with
      | ok sources => exact absurd (readSources_ok hsources).1 hall
      | error _ => rfl
    push Not at hall
    exact ⟨hall, by rw [hnone, OrderedMap.get?_empty]⟩

theorem sources_eq_some :
    project.sources.get? name = some source ↔
      (∀ entry ∈ project.sourceEntries, project.Readable entry) ∧
      ∃ entry, lastSpelled project.sourceEntries name = some entry ∧
        project.readSource entry.1 entry.2 = .ok source := by
  rcases @sources_get? project name with ⟨hall, hget⟩ | ⟨⟨entry, hentry, hunread⟩, hget⟩
  · constructor
    · intro hsome
      rw [hsome] at hget
      obtain ⟨entry, hentry, hread⟩ := Option.map_eq_some_iff.mp hget.symm
      exact ⟨hall, entry, hentry, hread⟩
    · rintro ⟨_, entry, hentry, hread⟩
      rw [hentry, Option.map_some, hread] at hget
      obtain ⟨found, hfound, heq⟩ := Option.map_eq_some_iff.mp hget
      cases heq
      exact hfound
  · rw [hget]
    refine ⟨fun h ↦ (by cases h), fun h ↦ absurd (h.1 entry hentry) hunread⟩

theorem sources_eq_none :
    project.sources.get? name = none ↔
      (∃ entry ∈ project.sourceEntries, ¬ project.Readable entry) ∨
      lastSpelled project.sourceEntries name = none := by
  rcases @sources_get? project name with ⟨hall, hget⟩ | ⟨hunread, hget⟩
  · constructor
    · intro hnone
      rw [hnone] at hget
      exact Or.inr (Option.map_eq_none_iff.mp hget.symm)
    · rintro (⟨entry, hentry, hunread⟩ | hnone)
      · exact absurd (hall entry hentry) hunread
      · rw [hnone] at hget
        exact Option.map_eq_none_iff.mp hget
  · exact ⟨fun _ ↦ Or.inl hunread, fun _ ↦ hget⟩

/-! ## Setting and removing -/

variable (ctx : Context)

theorem sourceEntries_setSource (name : Text) (source : PonSource) :
    (project.setSource ctx name source).sourceEntries =
      Entries.insert (Package.normalize name) (.inlineTable (project.sourceEntry ctx source))
        project.sourceEntries :=
  Item.entriesAt_updateTable _ _ _

theorem sourceEntries_removeSource (name : Text) :
    (project.removeSource name).2.sourceEntries =
      Entries.remove (Package.normalize name) project.sourceEntries :=
  Item.entriesAt_modifyTable _ rfl _

theorem dependencies_setSource (name : Text) (source : PonSource) :
    (project.setSource ctx name source).dependencies = project.dependencies := by
  unfold PyProject.dependencies PyProject.stringArrayAt PyProject.setSource PyProject.sourcesPath
  rw [Item.itemAt_updateTable_ne _ _ (by decide)]

theorem dependencies_removeSource (name : Text) :
    (project.removeSource name).2.dependencies = project.dependencies := by
  unfold PyProject.dependencies PyProject.stringArrayAt PyProject.removeSource PyProject.sourcesPath
  rw [Item.itemAt_modifyTable_ne _ _ (by decide)]

theorem readSource_sourceEntry (key : Text) (source : PonSource) :
    project.readSource key (.inlineTable (project.sourceEntry ctx source)) =
      if source.path.isSome = source.git.isSome then
        .error (project.invalidSource key " must specify exactly one of `path` or `git`".toList)
      else .ok
        { source with
          path := source.path.map fun path ↦
            project.resolveSourcePath (project.sourcePathForWrite ctx path)
          editable := source.path.isSome && source.editable } := by
  obtain ⟨path, editable, git, rev⟩ := source
  cases path <;> cases editable <;> cases git <;> cases rev <;> rfl

/-- The source is read as it has been written. -/
structure ReadsBack (ctx : Context) (project : PyProject) (source : PonSource) : Prop where
  path : ∀ path, source.path = some path →
    project.resolveSourcePath (project.sourcePathForWrite ctx path) = path
  editable : source.editable = true → source.path.isSome

theorem readSource_sourceEntry_iff {ctx : Context} {key : Text}
    (h : source.path.isSome ≠ source.git.isSome) :
    project.readSource key (.inlineTable (project.sourceEntry ctx source)) = .ok source ↔
      ReadsBack ctx project source := by
  rw [readSource_sourceEntry, if_neg h]
  obtain ⟨path, editable, git, rev⟩ := source
  constructor
  · intro heq
    have hfields := Except.ok.inj heq
    rw [PonSource.mk.injEq] at hfields
    obtain ⟨hpath, heditable, _⟩ := hfields
    refine ⟨fun found hfound ↦ ?_, fun heditable' ↦ ?_⟩
    · dsimp only at hfound hpath
      rw [hfound] at hpath
      exact Option.some.inj hpath
    · dsimp only at heditable' heditable ⊢
      rw [heditable'] at heditable
      simpa using heditable
  · rintro ⟨hpath, heditable⟩
    dsimp only at hpath heditable ⊢
    congr 2
    · cases path with
      | none => rfl
      | some found => exact congrArg some (hpath found rfl)
    · cases editable with
      | false => exact Bool.and_false _
      | true => rw [heditable rfl, Bool.true_and]

/-- No other spelling of the name comes after the place where the name is written. -/
def WrittenLast (entries : Entries) (name : Text) : Prop :=
  Package.normalize name = name ∧
    (name ∈ entries.map Prod.fst → ∀ entry, lastSpelled entries name = some entry → entry.1 = name)

/-- The last spelling after an entry has been written under a name. -/
theorem lastSpelled_insert (name : Text) (item : Item) (entries : Entries) :
    (WrittenLast entries name ∧
      lastSpelled (Entries.insert name item entries) name = some (name, item)) ∨
    (¬ WrittenLast entries name ∧
      lastSpelled (Entries.insert name item entries) name = lastSpelled entries name ∧
      ∀ entry, lastSpelled entries name = some entry → entry.1 ≠ name) := by
  have hspelled : ∀ entry, lastSpelled entries name = some entry →
      entry ∈ entries ∧ Package.normalize entry.1 = name := by
    intro entry hlast
    obtain ⟨hin, hname⟩ := List.mem_filter.mp (List.mem_of_getLast? hlast)
    exact ⟨hin, of_decide_eq_true hname⟩
  by_cases hkey : name ∈ entries.map Prod.fst
  · have hkeys : ∀ entry : Text × Item,
        (if entry.1 = name then (name, item) else entry).1 = entry.1 := by
      intro entry
      split
      · rename_i heq
        exact heq.symm
      · rfl
    have hmap : lastSpelled (Entries.insert name item entries) name =
        (lastSpelled entries name).map fun entry ↦ if entry.1 = name then (name, item) else entry := by
      unfold lastSpelled Entries.insert
      rw [if_pos hkey, List.filter_map, List.getLast?_map]
      congr 3
      funext entry
      simp only [Function.comp_apply, hkeys]
    by_cases hlast : ∃ entry, lastSpelled entries name = some entry ∧ entry.1 ≠ name
    · obtain ⟨entry, hentry, hne⟩ := hlast
      refine Or.inr ⟨fun hwritten ↦ hne (hwritten.2 hkey entry hentry), ?_, fun other hother ↦ ?_⟩
      · rw [hmap, hentry, Option.map_some, if_neg hne]
      · rw [hentry] at hother
        cases hother
        exact hne
    · push Not at hlast
      by_cases hnormal : Package.normalize name = name
      · refine Or.inl ⟨⟨hnormal, fun _ ↦ hlast⟩, ?_⟩
        obtain ⟨entry, hentry, hname⟩ := List.mem_map.mp hkey
        have hne : entries.filter (fun entry ↦ decide (Package.normalize entry.1 = name)) ≠ [] :=
          List.ne_nil_of_mem (List.mem_filter.mpr ⟨hentry, by simp [hname, hnormal]⟩)
        have hsome := List.getLast?_eq_some_getLast hne
        rw [hmap, lastSpelled, hsome, Option.map_some, if_pos (hlast _ hsome)]
      · have hnone : lastSpelled entries name = none := by
          cases hsome : lastSpelled entries name with
          | none => rfl
          | some entry =>
            have hname := (hspelled entry hsome).2
            rw [hlast entry hsome] at hname
            exact absurd hname hnormal
        refine Or.inr ⟨fun hwritten ↦ hnormal hwritten.1, ?_, fun entry hentry ↦ ?_⟩
        · rw [hmap, hnone]
          rfl
        · rw [hnone] at hentry
          cases hentry
  · have hlast : ∀ entry, lastSpelled entries name = some entry → entry.1 ≠ name :=
      fun entry hentry heq ↦ hkey (List.mem_map.mpr ⟨entry, (hspelled entry hentry).1, heq⟩)
    have happend : lastSpelled (Entries.insert name item entries) name =
        if Package.normalize name = name then some (name, item) else lastSpelled entries name := by
      unfold lastSpelled Entries.insert
      rw [if_neg hkey, List.filter_append]
      split
      · rename_i hnormal
        rw [List.filter_cons_of_pos (by simpa using hnormal), List.filter_nil, List.getLast?_concat]
      · rename_i hnormal
        rw [List.filter_cons_of_neg (by simpa using hnormal), List.filter_nil, List.append_nil]
    by_cases hnormal : Package.normalize name = name
    · refine Or.inl ⟨⟨hnormal, fun hmem ↦ absurd hmem hkey⟩, ?_⟩
      rw [happend, if_pos hnormal]
    · refine Or.inr ⟨fun hwritten ↦ hnormal hwritten.1, ?_, hlast⟩
      rw [happend, if_neg hnormal]

/-- The other entries can be read, the source has one of path and repository, and what is read under
the name is the source: the entry that is written for it, or the last other spelling. -/
structure KeepsSource (ctx : Context) (project : PyProject) (name : Text) (source : PonSource) :
    Prop where
  others : ∀ entry ∈ project.sourceEntries, entry.1 ≠ name → project.Readable entry
  oneOf : source.path.isSome ≠ source.git.isSome
  last : WrittenLast project.sourceEntries name ∧ ReadsBack ctx project source ∨
    ¬ WrittenLast project.sourceEntries name ∧ ∃ entry,
      lastSpelled project.sourceEntries name = some entry ∧
      project.readSource entry.1 entry.2 = .ok source

structure SetsSource (before after : PyProject) (name : Text) (source : PonSource) : Prop where
  source : after.sources.get? name = some source
  dependencies : after.dependencies = before.dependencies

structure RemovesSource (before after : PyProject) (name : Text) : Prop where
  source : after.sources.get? name = none
  dependencies : after.dependencies = before.dependencies

theorem setsSource_iff (name : Text) (source : PonSource) :
    SetsSource project (project.setSource ctx name source) (Package.normalize name) source ↔
      KeepsSource ctx project (Package.normalize name) source := by
  have hread : ∀ entry : Text × Item, (project.setSource ctx name source).readSource entry.1 entry.2 =
      project.readSource entry.1 entry.2 := fun _ ↦ rfl
  have hreadable : ∀ entry : Text × Item, (project.setSource ctx name source).Readable entry ↔
      project.Readable entry := fun _ ↦ Iff.rfl
  have hwritten : project.Readable
      (Package.normalize name, .inlineTable (project.sourceEntry ctx source)) ↔
      source.path.isSome ≠ source.git.isSome := by
    unfold PyProject.Readable
    rw [readSource_sourceEntry]
    split
    · rename_i hsame
      exact ⟨fun ⟨_, h⟩ ↦ (by cases h), fun h ↦ absurd hsame h⟩
    · rename_i hone
      exact ⟨fun _ ↦ hone, fun _ ↦ ⟨_, rfl⟩⟩
  have hget := @sources_eq_some (project.setSource ctx name source) (Package.normalize name) source
  simp only [sourceEntries_setSource, hreadable, hread, Entries.mem_insert] at hget
  constructor
  · rintro ⟨hsource, _⟩
    obtain ⟨hall, entry, hlast, hentry⟩ := hget.mp hsource
    have hone := hwritten.mp (hall _ (Or.inl rfl))
    refine ⟨fun other hother hne ↦ hall other (Or.inr ⟨hother, hne⟩), hone, ?_⟩
    rcases lastSpelled_insert (Package.normalize name) (.inlineTable (project.sourceEntry ctx source))
      project.sourceEntries with ⟨hwrites, heq⟩ | ⟨hshadowed, heq, _⟩
    · rw [heq] at hlast
      cases hlast
      exact Or.inl ⟨hwrites, (readSource_sourceEntry_iff hone).mp hentry⟩
    · rw [heq] at hlast
      exact Or.inr ⟨hshadowed, entry, hlast, hentry⟩
  · rintro ⟨hothers, hone, hlast⟩
    refine ⟨hget.mpr ⟨?_, ?_⟩, dependencies_setSource ctx name source⟩
    · rintro entry (rfl | ⟨hentry, hne⟩)
      · exact hwritten.mpr hone
      · exact hothers entry hentry hne
    · rcases lastSpelled_insert (Package.normalize name) (.inlineTable (project.sourceEntry ctx source))
        project.sourceEntries with ⟨hwrites, heq⟩ | ⟨hshadowed, heq, _⟩
      · obtain ⟨_, hback⟩ := hlast.resolve_right fun h ↦ h.1 hwrites
        exact ⟨_, heq, (readSource_sourceEntry_iff hone).mpr hback⟩
      · obtain ⟨_, entry, hentry, hsource⟩ := hlast.resolve_left fun h ↦ hshadowed h.1
        exact ⟨entry, heq.trans hentry, hsource⟩

/-- The name has no other spelling, or an entry that stays cannot be read. -/
def DropsSource (project : PyProject) (name : Text) : Prop :=
  (∃ entry ∈ project.sourceEntries, entry.1 ≠ name ∧ ¬ project.Readable entry) ∨
    ∀ entry ∈ project.sourceEntries, Package.normalize entry.1 = name → entry.1 = name

theorem removesSource_iff (name : Text) :
    RemovesSource project (project.removeSource name).2 (Package.normalize name) ↔
      DropsSource project (Package.normalize name) := by
  have hreadable : ∀ entry : Text × Item, (project.removeSource name).2.Readable entry ↔
      project.Readable entry := fun _ ↦ Iff.rfl
  have hmem : ∀ entry, entry ∈ Entries.remove (Package.normalize name) project.sourceEntries ↔
      entry ∈ project.sourceEntries ∧ entry.1 ≠ Package.normalize name := by
    intro entry
    unfold Entries.remove
    rw [List.mem_filter, decide_eq_true_eq]
  have hnone : lastSpelled (Entries.remove (Package.normalize name) project.sourceEntries)
      (Package.normalize name) = none ↔ ∀ entry ∈ project.sourceEntries,
        Package.normalize entry.1 = Package.normalize name → entry.1 = Package.normalize name := by
    unfold lastSpelled
    rw [List.getLast?_eq_none_iff, List.filter_eq_nil_iff]
    refine forall_congr' fun entry ↦ ?_
    rw [hmem, decide_eq_true_eq]
    tauto
  have hget := @sources_eq_none (project.removeSource name).2 (Package.normalize name)
  simp only [sourceEntries_removeSource, hreadable, hmem, hnone] at hget
  unfold DropsSource
  constructor
  · rintro ⟨hsource, _⟩
    refine (hget.mp hsource).imp_left ?_
    rintro ⟨entry, ⟨hentry, hne⟩, hunread⟩
    exact ⟨entry, hentry, hne, hunread⟩
  · intro h
    refine ⟨hget.mpr (h.imp_left ?_), dependencies_removeSource name⟩
    rintro ⟨entry, hentry, hne, hunread⟩
    exact ⟨entry, ⟨hentry, hne⟩, hunread⟩

end Sources

/-! ## Edits -/

/-- Edits of dependencies do what they say, and nothing else, exactly if every other name has at most one
dependency string; edits of sources exactly under the conditions on the spellings of the name. An edit
that fails changes nothing. -/
theorem edits_iff (ctx : Context) (project : PyProject) :
    (∀ raw name added after, project.nameOf ctx raw = .ok name →
      project.addDependency ctx raw = (.ok added, after) →
      (AddsDependency ctx project after name raw ↔ OthersOnce ctx project name)) ∧
    (∀ name removed after, project.removeDependency ctx name = (.ok removed, after) →
      (RemovesDependency ctx project after (Package.normalize name) ↔
        OthersOnce ctx project (Package.normalize name))) ∧
    (∀ name source,
      SetsSource project (project.setSource ctx name source) (Package.normalize name) source ↔
        KeepsSource ctx project (Package.normalize name) source) ∧
    (∀ name, RemovesSource project (project.removeSource name).2 (Package.normalize name) ↔
      DropsSource project (Package.normalize name)) ∧
    (∀ raw error after, project.addDependency ctx raw = (.error error, after) → after = project) ∧
    ∀ name error after, project.removeDependency ctx name = (.error error, after) → after = project :=
  ⟨fun _ _ _ _ hname h ↦ addsDependency_iff hname h, fun _ _ _ h ↦ removesDependency_iff h,
    setsSource_iff ctx, removesSource_iff, fun _ _ _ h ↦ addDependency_error h,
    fun _ _ _ h ↦ removeDependency_error h⟩

/-! ## A manifest with two strings of one name -/

/-- A parser of requirements that are a name and a rest. -/
def plainContext : Context where
  readToString _ := .error .notFound
  pathExists _ := false
  currentDir := none
  parseToml _ := .error []
  parsePep508 raw := some (Package.normalize (raw.takeWhile fun c ↦ isAlphanumeric (UInt8.ofNat c.toNat)))
  parseUrl _ := none

def markedProject : PyProject where
  path := [.normal "pyproject.toml".toList]
  doc := .table
    [("project".toList, .table [("dependencies".toList, .array
        [.string "numpy<2; python_version<'3.13'".toList,
          .string "numpy>=2; python_version>='3.13'".toList])]),
      ("tool".toList, .table [("pon".toList, .table [("sources".toList, .table
        [("Requests".toList, .inlineTable [("path".toList, .string "vendor".toList)])])])])]

/-- Adding another dependency loses one of the strings, and a source stays under another spelling. -/
theorem edits_lose :
    (markedProject.addDependency plainContext "idna".toList).1 = .ok true ∧
    ¬ AddsDependency plainContext markedProject
      (markedProject.addDependency plainContext "idna".toList).2 "idna".toList "idna".toList ∧
    ¬ RemovesSource markedProject (markedProject.removeSource "requests".toList).2 "requests".toList := by
  refine ⟨by decide, fun hadds ↦ ?_, fun hremoves ↦ ?_⟩
  · have hlost : (markedProject.addDependency plainContext "idna".toList).2.dependencies.count
        "numpy<2; python_version<'3.13'".toList = 0 := by decide
    have hkept := hadds.others "numpy".toList "numpy<2; python_version<'3.13'".toList (by decide)
      (by decide) (by decide)
    rw [hlost] at hkept
    revert hkept
    decide
  · have hsource := hremoves.source
    revert hsource
    decide

end Pon.Manifest
