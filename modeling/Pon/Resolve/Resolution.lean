import Pon.Resolve.Stability

/-!
# From the answer of the solver to a resolution

The solver answers with one version for each package that it has selected. The distributions among
them are listed in dependency order. Sorted maps and sets are lists that are kept sorted by name. The
search for the order recurses with a fuel, which is the number of the names that may still be entered.
-/

namespace Pon.Resolve

open Package

structure ResolvedDist (V : Type) where
  name : PackageName
  version : V
  kind : PackageKind
  artifact : ResolvedArtifact
  dependencies : List PackageName

structure Resolution (V : Type) where
  dists : List (ResolvedDist V)

section Sorted

variable {α : Type}

/-- Inserting into a map sorted by name; an entry of that name is replaced. -/
def insertEntry (name : PackageName) (value : α) : List (PackageName × α) → List (PackageName × α)
  | [] => [(name, value)]
  | entry :: rest =>
      if entry.1 = name then (name, value) :: rest
      else if name.val < entry.1.val then (name, value) :: entry :: rest
      else entry :: insertEntry name value rest

/-- Inserting into a sorted set of names. -/
def insertName (name : PackageName) : List PackageName → List PackageName
  | [] => [name]
  | other :: rest =>
      if other = name then other :: rest
      else if name.val < other.val then name :: other :: rest
      else other :: insertName name rest

def lookupEntry (map : List (PackageName × α)) (name : PackageName) : Option α :=
  (map.find? fun entry ↦ entry.1 = name).map Prod.snd

end Sorted

abbrev Graph := List (PackageName × List PackageName)

variable {V : Type}

/-- The versions of the selected distributions. -/
def distVersions (selected : List (PonPackage × V)) : List (PackageName × V) :=
  selected.foldl
    (fun versions entry ↦
      match entry.1 with
      | .dist name => insertEntry name entry.2 versions
      | .root | .extra .. => versions)
    []

/-- `entry(owner).or_default()`. -/
def Graph.addOwner (graph : Graph) (owner : PackageName) : Graph :=
  match lookupEntry graph owner with
  | some _ => graph
  | none => insertEntry owner [] graph

def Graph.addDependency (graph : Graph) (owner dependency : PackageName) : Graph :=
  graph.map fun entry ↦ if entry.1 = owner then (owner, insertName dependency entry.2) else entry

/-- The dependencies of one selected package. -/
def Graph.addEdges (versions : List (PackageName × V)) (owner : PackageName) (graph : Graph)
    (edges : DependencyConstraints V) : Graph := edges.foldl
    (fun graph edge ↦
      match edge.1.distName with
      | some dependency =>
          if dependency ≠ owner ∧ (lookupEntry versions dependency).isSome then
            graph.addDependency owner dependency
          else graph
      | none => graph)
    (graph.addOwner owner)

section Graph

variable [LinearOrder V] [Versions V]

def Provider.dependencyGraph (provider : Provider V) (versions : List (PackageName × V))
    (graph : Graph) : List (PonPackage × V) → ProviderM V Graph
  | [] => pure graph
  | (package, version) :: rest =>
      match package.distName with
      | none => provider.dependencyGraph versions graph rest
      | some owner => do
          let edges ← provider.dependencyEdges package version
          provider.dependencyGraph versions (graph.addEdges versions owner edges) rest

end Graph

structure Visit where
  visiting : List PackageName
  visited : List PackageName
  ordered : List PackageName

def visitDependency (graph : Graph) : ℕ → PackageName → Visit → Visit
  | 0, _, visit => visit
  | fuel + 1, name, visit =>
      if name ∈ visit.visited then visit
      else if name ∈ visit.visiting then visit
      else
        let visit := ((lookupEntry graph name).getD []).foldl
          (fun visit dependency ↦ visitDependency graph fuel dependency visit)
          { visit with visiting := name :: visit.visiting }
        { visiting := visit.visiting.erase name
          visited := name :: visit.visited
          ordered := visit.ordered ++ [name] }

def dependencyOrder (graph : Graph) : List PackageName :=
  ((graph.map Prod.fst).foldl
    (fun visit name ↦ visitDependency graph (graph.length + 1) name visit)
    { visiting := [], visited := [], ordered := [] }).ordered

section Resolve

variable [LinearOrder V] [Versions V]

def Provider.selectedArtifact (provider : Provider V) (name : PackageName) (version : V) :
    ProviderM V (ResolvedArtifact × PackageKind) := do
  match (← pinnedCandidate name).filter fun candidate ↦ decide (candidate.version = version) with
  | some candidate => pure (candidate.artifact, candidate.kind)
  | none =>
      let artifacts ← liftExcept (provider.source.artifacts name version)
      match artifacts.wheels.find? wheelInstallableByPon, artifacts.sdist with
      | some file, _ => pure (.wheel file, file.kind)
      | none, some file => pure (.sdist file, file.kind)
      | none, none => throw (.unsupportedArtifact
          ("no installable artifact is available for `".toList ++ name.val ++ ['`', ' '] ++
            Versions.display version))

def Provider.resolveDists (provider : Provider V) (versions : List (PackageName × V)) (graph : Graph) :
    List PackageName → ProviderM V (List (ResolvedDist V))
  | [] => pure []
  | name :: rest =>
      match lookupEntry versions name with
      | none => provider.resolveDists versions graph rest
      | some version => do
          let (artifact, kind) ← provider.selectedArtifact name version
          let dists ← provider.resolveDists versions graph rest
          let dependencies := (lookupEntry graph name).getD []
          pure ({ name, version, kind, artifact, dependencies } :: dists)

/-- What `resolve_root` makes of the packages that the solver has selected. -/
def Provider.resolveRoot (provider : Provider V) (selected : List (PonPackage × V)) :
    ProviderM V (Resolution V) := do
  let versions := distVersions selected
  let graph ← provider.dependencyGraph versions (versions.map fun entry ↦ (entry.1, [])) selected
  let dists ← provider.resolveDists versions graph (dependencyOrder graph)
  pure { dists }

end Resolve

theorem lookupEntry_insertEntry {α : Type} (name : PackageName) (value : α)
    (map : List (PackageName × α)) (other : PackageName) :
    lookupEntry (insertEntry name value map) other =
      if name = other then some value else lookupEntry map other := by
  induction map with
  | nil => by_cases h : name = other <;> simp [insertEntry, lookupEntry, h]
  | cons entry rest ih =>
    unfold insertEntry
    by_cases hsame : entry.1 = name
    · by_cases h : name = other <;> simp [lookupEntry, hsame, h]
    · rw [if_neg hsame]
      by_cases hlt : name.val < entry.1.val
      · rw [if_pos hlt]
        by_cases h : name = other <;> simp [lookupEntry, h]
      · rw [if_neg hlt]
        by_cases hentry : entry.1 = other
        · have hne : name ≠ other := fun heq ↦ hsame (hentry.trans heq.symm)
          simp [lookupEntry, hentry, hne]
        · simp only [lookupEntry, List.find?_cons, decide_eq_false hentry] at ih ⊢
          exact ih

variable {selected : List (PonPackage × V)}

theorem lookup_distVersions_from
    (hnodup : (selected.map Prod.fst).Nodup) (versions : List (PackageName × V)) (name : PackageName)
    (version : V) :
    lookupEntry (selected.foldl
      (fun versions entry ↦
        match entry.1 with
        | .dist name => insertEntry name entry.2 versions
        | .root | .extra .. => versions)
      versions) name = some version ↔
      (.dist name, version) ∈ selected ∨
        lookupEntry versions name = some version ∧ ∀ other, (.dist name, other) ∉ selected := by
  induction selected generalizing versions with
  | nil => simp
  | cons entry rest ih =>
    rw [List.map_cons, List.nodup_cons] at hnodup
    obtain ⟨package, selectedVersion⟩ := entry
    rw [List.foldl_cons, ih hnodup.2]
    by_cases hpackage : package = .dist name
    · subst hpackage
      have hfresh : ∀ other, (PonPackage.dist name, other) ∉ rest := fun other hmem ↦
        hnodup.1 (List.mem_map.mpr ⟨_, hmem, rfl⟩)
      simp [lookupEntry_insertEntry, hfresh, eq_comm]
    · have hsame : lookupEntry (match package with
          | .dist name => insertEntry name selectedVersion versions
          | .root | .extra .. => versions) name = lookupEntry versions name := by
        cases package with
        | dist other =>
          have hne : other ≠ name := fun heq ↦ hpackage (heq ▸ rfl)
          simp [lookupEntry_insertEntry, hne]
        | root => rfl
        | extra _ _ => rfl
      rw [hsame]
      simp [Ne.symm hpackage]

theorem lookup_distVersions
    (hnodup : (selected.map Prod.fst).Nodup) (name : PackageName) (version : V) :
    lookupEntry (distVersions selected) name = some version ↔ (.dist name, version) ∈ selected := by
  unfold distVersions
  rw [lookup_distVersions_from hnodup]
  simp [lookupEntry]

/-- The names that are listed are those that have been visited, each of them once. -/
structure Visit.Ok (visit : Visit) : Prop where
  nodup : visit.ordered.Nodup
  mem_ordered : ∀ name, name ∈ visit.ordered ↔ name ∈ visit.visited
  apart : ∀ name ∈ visit.visiting, name ∉ visit.visited

/-- A visit leaves the names being visited as they were, and forgets no visited name. -/
structure Visit.Extends (visit after : Visit) : Prop where
  ok : after.Ok
  visiting : after.visiting = visit.visiting
  visited : ∀ name ∈ visit.visited, name ∈ after.visited

variable {visit : Visit}

theorem Visit.Extends.refl (h : visit.Ok) : visit.Extends visit :=
  ⟨h, rfl, fun _ hmem ↦ hmem⟩

theorem Visit.Extends.trans {a b c : Visit} (h : a.Extends b) (h' : b.Extends c) : a.Extends c :=
  ⟨h'.ok, h'.visiting.trans h.visiting, fun name hmem ↦ h'.visited name (h.visited name hmem)⟩

theorem Visit.Extends.foldl {step : Visit → PackageName → Visit}
    (hstep : ∀ (visit : Visit) (name : PackageName), visit.Ok → visit.Extends (step visit name))
    (names : List PackageName) (h : visit.Ok) : visit.Extends (names.foldl step visit) := by
  induction names generalizing visit with
  | nil => exact .refl h
  | cons name rest ih => exact (hstep visit name h).trans (ih (hstep visit name h).ok)

variable (graph : Graph)

theorem visitDependency_extends (fuel : ℕ) (name : PackageName) (visit : Visit)
    (h : visit.Ok) : visit.Extends (visitDependency graph fuel name visit) := by
  induction fuel generalizing name visit with
  | zero => exact .refl h
  | succ fuel ih =>
    unfold visitDependency
    split
    · exact .refl h
    · rename_i hvisited
      split
      · exact .refl h
      · rename_i hvisiting
        have henter : Visit.Ok { visit with visiting := name :: visit.visiting } := by
          refine ⟨h.nodup, h.mem_ordered, fun other hother ↦ ?_⟩
          rcases List.mem_cons.mp hother with rfl | hold
          · exact hvisited
          · exact h.apart other hold
        have hinner := Visit.Extends.foldl
          (fun (visit : Visit) (dependency : PackageName) (hok : visit.Ok) ↦ ih dependency visit hok)
          ((lookupEntry graph name).getD []) henter
        -- The name itself has not been listed below, for it was being visited.
        have hunlisted := hinner.ok.apart name (by rw [hinner.visiting]; exact List.mem_cons_self)
        refine ⟨⟨?_, ?_, ?_⟩, ?_, ?_⟩
        · refine hinner.ok.nodup.append (List.nodup_singleton name) ?_
          rintro other hother hmem
          rw [List.mem_singleton.mp hmem, hinner.ok.mem_ordered] at hother
          exact hunlisted hother
        · intro other
          simp [hinner.ok.mem_ordered, or_comm]
        · intro other hother
          simp only [hinner.visiting, List.erase_cons_head] at hother
          have hne : other ≠ name := fun heq ↦ hvisiting (heq ▸ hother)
          have hunvisited := hinner.ok.apart other (by
            rw [hinner.visiting]
            exact List.mem_cons_of_mem _ hother)
          simp [hne, hunvisited]
        · simp [hinner.visiting]
        · exact fun other hother ↦ List.mem_cons_of_mem _ (hinner.visited other hother)

theorem mem_visited_of_visit (fuel : ℕ) (name : PackageName)
    (h : name ∉ visit.visiting) : name ∈ (visitDependency graph (fuel + 1) name visit).visited := by
  unfold visitDependency
  split
  · assumption
  · exact List.mem_cons_self

/-- The order lists every node of the graph, and no name twice. -/
theorem dependencyOrder_spec :
    (dependencyOrder graph).Nodup ∧ ∀ name ∈ graph.map Prod.fst, name ∈ dependencyOrder graph := by
  have hstep : ∀ (visit : Visit) (name : PackageName), visit.Ok →
      visit.Extends (visitDependency graph (graph.length + 1) name visit) := fun visit name hok ↦
    visitDependency_extends graph _ name visit hok
  have hall : ∀ (names : List PackageName) (visit : Visit), visit.Ok → visit.visiting = [] →
      ∀ name ∈ names, name ∈ (names.foldl
        (fun visit name ↦ visitDependency graph (graph.length + 1) name visit) visit).visited := by
    intro names
    induction names with
    | nil => exact fun _ _ _ _ hmem ↦ by cases hmem
    | cons first rest ih =>
      intro visit hok hempty name hmem
      have hfirst := hstep visit first hok
      have hrest := Visit.Extends.foldl hstep rest hfirst.ok
      rcases List.mem_cons.mp hmem with rfl | hin
      · exact hrest.visited name (mem_visited_of_visit graph _ name (by simp [hempty]))
      · exact ih _ hfirst.ok (hfirst.visiting.trans hempty) name hin
  have hstart : Visit.Ok { visiting := [], visited := [], ordered := [] } :=
    ⟨List.nodup_nil, fun _ ↦ Iff.rfl, fun _ hmem ↦ by cases hmem⟩
  have hextends := Visit.Extends.foldl hstep (graph.map Prod.fst) hstart
  refine ⟨hextends.ok.nodup, fun name hmem ↦ ?_⟩
  exact (hextends.ok.mem_ordered name).mpr (hall _ _ hstart rfl name hmem)

theorem Graph.addOwner_keys (owner name : PackageName)
    (h : name ∈ graph.map Prod.fst) : name ∈ (graph.addOwner owner).map Prod.fst := by
  unfold Graph.addOwner
  split
  · exact h
  · have hkeys : ∀ map : Graph, name ∈ map.map Prod.fst →
        name ∈ (insertEntry owner [] map).map Prod.fst := by
      intro map
      induction map with
      | nil => exact fun hmem ↦ by cases hmem
      | cons entry rest ih =>
        intro hmem
        unfold insertEntry
        split
        · rename_i hsame
          simpa [hsame] using hmem
        · split
          · exact List.mem_cons_of_mem _ hmem
          · rcases List.mem_cons.mp hmem with rfl | hin
            · exact List.mem_cons_self
            · exact List.mem_cons_of_mem _ (ih hin)
    exact hkeys graph h

theorem Graph.addDependency_keys (owner dependency : PackageName) :
    (graph.addDependency owner dependency).map Prod.fst = graph.map Prod.fst := by
  unfold Graph.addDependency
  rw [List.map_map]
  apply List.map_congr_left
  intro entry _
  by_cases h : entry.1 = owner <;> simp [h]

theorem Graph.addEdges_keys (versions : List (PackageName × V)) (owner : PackageName) (graph : Graph)
    (edges : DependencyConstraints V) (name : PackageName) (h : name ∈ graph.map Prod.fst) :
    name ∈ (graph.addEdges versions owner edges).map Prod.fst := by
  unfold Graph.addEdges
  have hstart := graph.addOwner_keys owner name h
  generalize graph.addOwner owner = start at hstart
  induction edges generalizing start with
  | nil => exact hstart
  | cons edge rest ih =>
    rw [List.foldl_cons]
    apply ih
    split
    · split
      · rw [Graph.addDependency_keys]
        exact hstart
      · exact hstart
    · exact hstart

section Listed

variable [LinearOrder V] [Versions V] {provider : Provider V}

variable {cache : Cache V} (versions : List (PackageName × V))

theorem Provider.dependencyGraph_keys (selected : List (PonPackage × V)) {graph result : Graph}
    (h : (provider.dependencyGraph versions graph selected cache).1 = .ok result)
    (name : PackageName) (hname : name ∈ graph.map Prod.fst) : name ∈ result.map Prod.fst := by
  induction selected generalizing graph cache with
  | nil =>
    cases h
    exact hname
  | cons entry rest ih =>
    obtain ⟨package, version⟩ := entry
    unfold Provider.dependencyGraph at h
    cases howner : package.distName with
    | none =>
      simp only [howner] at h
      exact ih h hname
    | some owner =>
      simp only [howner, bind_apply] at h
      rcases hedges : provider.dependencyEdges package version cache with ⟨edges, cache'⟩
      rw [hedges] at h
      cases edges with
      | error _ => cases h
      | ok edges => exact ih h (graph.addEdges_keys versions owner edges name hname)

theorem Provider.resolveDists_spec (graph : Graph)
    (names : List PackageName) {dists : List (ResolvedDist V)}
    (h : (provider.resolveDists versions graph names cache).1 = .ok dists) :
    dists.map (fun dist ↦ (dist.name, dist.version)) =
      names.filterMap fun name ↦ (lookupEntry versions name).map fun version ↦ (name, version) := by
  induction names generalizing dists cache with
  | nil =>
    cases h
    rfl
  | cons name rest ih =>
    unfold Provider.resolveDists at h
    cases hlookup : lookupEntry versions name with
    | none =>
      simp only [hlookup] at h
      rw [List.filterMap_cons, hlookup]
      exact ih h
    | some version =>
      simp only [hlookup, bind_apply] at h
      rcases hartifact : provider.selectedArtifact name version cache with ⟨artifact, cache'⟩
      rw [hartifact] at h
      cases artifact with
      | error _ => cases h
      | ok artifact =>
        simp only at h
        rcases hrest : provider.resolveDists versions graph rest cache' with ⟨result, cache''⟩
        rw [hrest] at h
        cases result with
        | error _ => cases h
        | ok result =>
          cases h
          have hdists := ih (congrArg Prod.fst hrest)
          simp [hlookup, hdists]

/-- A resolution lists the selected distributions at their versions, each of them once. -/
theorem Provider.resolveRoot_dists
    (hnodup : (selected.map Prod.fst).Nodup) {resolution : Resolution V}
    (h : (provider.resolveRoot selected cache).1 = .ok resolution) :
    (resolution.dists.map ResolvedDist.name).Nodup ∧ ∀ name version,
      (name, version) ∈ resolution.dists.map (fun dist ↦ (dist.name, dist.version)) ↔
        (.dist name, version) ∈ selected := by
  unfold Provider.resolveRoot at h
  simp only [bind_apply] at h
  rcases hgraph : provider.dependencyGraph (distVersions selected)
    ((distVersions selected).map fun entry ↦ (entry.1, [])) selected cache with ⟨graph, cache'⟩
  rw [hgraph] at h
  cases graph with
  | error _ => cases h
  | ok graph =>
    simp only at h
    rcases hdists : provider.resolveDists (distVersions selected) graph (dependencyOrder graph) cache'
      with ⟨dists, cache''⟩
    rw [hdists] at h
    cases dists with
    | error _ => cases h
    | ok dists =>
      cases h
      have hspec := provider.resolveDists_spec _ graph _ (by rw [hdists])
      obtain ⟨horder, hall⟩ := dependencyOrder_spec graph
      constructor
      · have hnames : dists.map ResolvedDist.name = (dependencyOrder graph).filter
            fun name ↦ (lookupEntry (distVersions selected) name).isSome := by
          have hfst := congrArg (List.map Prod.fst) hspec
          rw [List.map_map] at hfst
          refine hfst.trans ?_
          rw [List.map_filterMap, ← List.filterMap_eq_filter]
          apply List.filterMap_congr
          intro name _
          cases hlookup : lookupEntry (distVersions selected) name <;> simp [Option.guard, hlookup]
        rw [hnames]
        exact horder.filter _
      · intro name version
        rw [hspec, ← lookup_distVersions hnodup]
        simp only [List.mem_filterMap, Option.map_eq_some_iff]
        constructor
        · rintro ⟨other, _, found, hfound, heq⟩
          cases heq
          exact hfound
        · intro hlookup
          refine ⟨name, hall name ?_, version, hlookup, rfl⟩
          have hkey : name ∈ (distVersions selected).map Prod.fst := by
            unfold lookupEntry at hlookup
            obtain ⟨entry, hentry, _⟩ := Option.map_eq_some_iff.mp hlookup
            have hname : entry.1 = name := by simpa using List.find?_some hentry
            exact List.mem_map.mpr ⟨entry, List.mem_of_find?_eq_some hentry, hname⟩
          apply provider.dependencyGraph_keys (distVersions selected) selected (by rw [hgraph]) name
          simpa using hkey

end Listed

end Pon.Resolve
