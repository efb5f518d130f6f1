import Pon.Lock.LockFile

/-!
# The round trip of lock files

Every part of a lock file is read from the table that it is written to. The lock file as a whole is read
exactly if its version is supported. Lock files that are built from the same packages in another order
are equal, as long as packages of one name and version are.
-/

namespace Pon.Lock

open Package Toml

theorem get?_cons (key other : Text) (item : Item) (rest : Entries) :
    Entries.get? other ((key, item) :: rest) =
      if key = other then some item else Entries.get? other rest := by
  unfold Entries.get?
  by_cases hkey : key = other <;> simp [hkey]

theorem get?_append (key : Text) (a b : Entries) :
    Entries.get? key (a ++ b) = (Entries.get? key a).or (Entries.get? key b) := by
  unfold Entries.get?
  rw [List.find?_append]
  cases a.find? fun entry ↦ decide (entry.1 = key) <;> rfl

theorem get?_optionalEntry (key other : Text) (item : Option Item) :
    Entries.get? other (optionalEntry key item) = if key = other then item else none := by
  unfold Entries.get? optionalEntry
  cases item with
  | none => simp
  | some item => by_cases hkey : key = other <;> simp [hkey]

variable {table : Entries} {key : Text} (label : Text)

theorem optionalString_some {text : Text}
    (h : Entries.get? key table = some (.string text)) :
    optionalString table key label = .ok (some text) := by
  unfold optionalString
  rw [h]
  rfl

theorem optionalString_map {text : Option Text}
    (h : Entries.get? key table = text.map .string) :
    optionalString table key label = .ok text := by
  cases text with
  | none =>
    unfold optionalString
    rw [h]
    rfl
  | some text => exact optionalString_some label h

theorem requiredString_ok (text message : Text) (h : Entries.get? key table = some (.string text)) :
    requiredString table key message = .ok text := by
  unfold requiredString
  rw [optionalString_some message h]
  rfl

theorem parseOptionalTable_map {α : Type} {value : Option α} {toTable : α → Entries}
    {fromTable : Entries → Except Error α}
    (hround : ∀ a, fromTable (toTable a) = .ok a)
    (h : Entries.get? key table = value.map fun a ↦ .table (toTable a)) :
    parseOptionalTable table key label fromTable = .ok value := by
  unfold parseOptionalTable
  rw [h]
  cases value with
  | none => rfl
  | some a =>
    dsimp only [Option.map_some, Item.entries?]
    rw [hround]
    rfl

/-- A list of values is read from the list of their tables. -/
theorem mapM_ok {α β : Type} {write : α → β} {read : β → Except Error α}
    (hround : ∀ a, read (write a) = .ok a) (list : List α) : (list.map write).mapM read = .ok list := by
  induction list with
  | nil => rfl
  | cons a rest ih =>
    rw [List.map_cons, List.mapM_cons, hround, ih]
    rfl

theorem parseHashes_hashesInlineTable (hashes : OrderedMap Text Text)
    (h : Entries.get? "hashes".toList table = some (hashesInlineTable hashes)) :
    parseHashes table = .ok hashes := by
  have hhash : ∀ entry : Text × Text, parseHash (entry.1, .string entry.2) = .ok entry := fun _ ↦ rfl
  have hentries := mapM_ok hhash hashes.entries
  unfold parseHashes
  rw [h]
  dsimp only [hashesInlineTable, Item.entries?]
  rw [hentries]
  exact congrArg Except.ok hashes.insertAll_entries

theorem LockedWheel.fromTable_toTable (wheel : LockedWheel) :
    LockedWheel.fromTable wheel.toTable = .ok wheel := by
  unfold fromTable
  rw [requiredString_ok wheel.name _ rfl, requiredString_ok wheel.url _ rfl,
    parseHashes_hashesInlineTable wheel.hashes rfl]
  rfl

theorem LockedSdist.fromTable_toTable (sdist : LockedSdist) :
    LockedSdist.fromTable sdist.toTable = .ok sdist := by
  unfold fromTable
  rw [requiredString_ok sdist.name _ rfl, requiredString_ok sdist.url _ rfl,
    parseHashes_hashesInlineTable sdist.hashes rfl]
  rfl

theorem LockedDirectory.fromTable_toTable (directory : LockedDirectory) :
    LockedDirectory.fromTable directory.toTable = .ok directory := rfl

theorem LockedVcs.fromTable_toTable (vcs : LockedVcs) : LockedVcs.fromTable vcs.toTable = .ok vcs := by
  obtain ⟨vcsType, url, requestedRevision, commitId⟩ := vcs
  cases requestedRevision <;> rfl

namespace LockedPackage

variable (package : LockedPackage)

theorem get?_name : Entries.get? "name".toList package.toTable = some (.string package.name) := rfl

theorem get?_version :
    Entries.get? "version".toList package.toTable = some (.string package.version) := rfl

theorem get?_marker :
    Entries.get? "marker".toList package.toTable = package.marker.map .string := by
  simp [toTable, get?_append, get?_optionalEntry, get?_cons]

theorem get?_wheels : Entries.get? "wheels".toList package.toTable =
    arrayOfTables? (package.wheels.map LockedWheel.toTable) := by
  simp [toTable, get?_append, get?_optionalEntry, get?_cons]

theorem get?_sdist : Entries.get? "sdist".toList package.toTable =
    package.sdist.map fun sdist ↦ .table sdist.toTable := by
  simp [toTable, get?_append, get?_optionalEntry, get?_cons]

theorem get?_directory : Entries.get? "directory".toList package.toTable =
    package.directory.map fun directory ↦ .table directory.toTable := by
  simp [toTable, get?_append, get?_optionalEntry, get?_cons]

theorem get?_vcs : Entries.get? "vcs".toList package.toTable =
    package.vcs.map fun vcs ↦ .table vcs.toTable := by
  simp [toTable, get?_append, get?_optionalEntry, get?_cons]

theorem get?_tool : Entries.get? "tool".toList package.toTable =
    package.kind.toolKind.map fun kind ↦
      .table [("pon".toList, .table [("kind".toList, .string kind)])] := by
  simp [toTable, get?_append, get?_optionalEntry, get?_cons]

theorem parsePackageKind_toTable : parsePackageKind package.toTable = .ok package.kind := by
  unfold parsePackageKind
  rw [Item.itemAt_cons rfl, get?_tool]
  cases package.kind <;> rfl

/-- An array of tables that may be absent holds a list. -/
theorem parseWheels_toTable : parseWheels package.toTable = .ok package.wheels := by
  unfold parseWheels
  rw [get?_wheels, arrayOfTables?]
  cases hwheels : package.wheels with
  | nil => rfl
  | cons wheel rest =>
    rw [if_neg (by simp)]
    exact mapM_ok LockedWheel.fromTable_toTable (wheel :: rest)

theorem parsePackage_toTable : parsePackage package.toTable = .ok package := by
  unfold parsePackage
  rw [requiredString_ok package.name _ package.get?_name,
    requiredString_ok package.version _ package.get?_version,
    optionalString_map _ package.get?_marker, package.parsePackageKind_toTable,
    package.parseWheels_toTable,
    parseOptionalTable_map _ LockedSdist.fromTable_toTable package.get?_sdist,
    parseOptionalTable_map _ LockedDirectory.fromTable_toTable package.get?_directory,
    parseOptionalTable_map _ LockedVcs.fromTable_toTable package.get?_vcs]
  rfl

end LockedPackage

namespace LockFile

variable (lock : LockFile)

theorem parsePackages_toDocument :
    parsePackages lock.toDocument.ensureTable = .ok lock.packages := by
  have hpackages : Entries.get? "packages".toList lock.toDocument.ensureTable =
      arrayOfTables? (lock.packages.map LockedPackage.toTable) := by
    simp [toDocument, Item.ensureTable, Item.entries?, get?_optionalEntry, get?_cons]
  unfold parsePackages
  rw [hpackages, arrayOfTables?]
  cases hlist : lock.packages with
  | nil => rfl
  | cons package rest =>
    rw [if_neg (by simp)]
    exact mapM_ok LockedPackage.parsePackage_toTable (package :: rest)

/-- A document is read as the lock file that it was written from, after the check of the version. -/
theorem parseDocument_toDocument : parseDocument lock.toDocument =
    (validateLockVersion lock.lockVersion).map fun _ ↦ lock := by
  have htool : (lock.toDocument.itemAt ["tool".toList, "pon".toList]).bind Item.entries? =
      some [("input-hash".toList, .string lock.inputHash)] := rfl
  unfold parseDocument
  dsimp only
  rw [requiredString_ok lock.lockVersion _ rfl, requiredString_ok lock.createdBy _ rfl,
    requiredString_ok lock.requiresPython _ rfl, lock.parsePackages_toDocument, htool]
  cases hversion : validateLockVersion lock.lockVersion with
  | ok _ =>
    dsimp only [bind, Except.bind]
    rw [hversion]
    rfl
  | error _ =>
    dsimp only [bind, Except.bind]
    rw [hversion]
    rfl

/-- Packages of the same name and version are equal. -/
def DistinctReleases (packages : List LockedPackage) : Prop :=
  ∀ a ∈ packages, ∀ b ∈ packages, a.name = b.name → a.version = b.version → a = b

instance : Std.Total fun left right : LockedPackage ↦ left.key ≤ right.key :=
  ⟨fun _ _ ↦ le_total _ _⟩

instance : IsTrans LockedPackage fun left right ↦ left.key ≤ right.key :=
  ⟨fun _ _ _ ↦ le_trans⟩

/-- The order in which the packages are given does not count. -/
theorem withInputHash_perm {packages packages' : List LockedPackage} (h : packages.Perm packages')
    (hdistinct : DistinctReleases packages) (requiresPython inputHash : Text) :
    withInputHash packages requiresPython inputHash =
      withInputHash packages' requiresPython inputHash := by
  have hsorted : packages.insertionSort (fun left right ↦ left.key ≤ right.key) =
      packages'.insertionSort fun left right ↦ left.key ≤ right.key := by
    refine List.Perm.eq_of_pairwise (fun a b ha hb hab hba ↦ ?_)
      (List.pairwise_insertionSort _ packages) (List.pairwise_insertionSort _ packages')
      (((List.perm_insertionSort _ packages).trans h).trans (List.perm_insertionSort _ packages').symm)
    have ha := (List.mem_insertionSort _).mp ha
    have hb := h.mem_iff.mpr ((List.mem_insertionSort _).mp hb)
    have hkey : a.key = b.key := le_antisymm hab hba
    have hpair : (a.name, a.version) = (b.name, b.version) := toLex.injective hkey
    exact hdistinct a ha b hb (congrArg Prod.fst hpair) (congrArg Prod.snd hpair)
  unfold withInputHash
  rw [hsorted]

end LockFile

/-- If the parser reads the document that is printed, then the lock file is read exactly if its major
version is 1. Lock files from the same packages in another order print the same text if packages of one
name and version are equal. -/
theorem parseLock_print (parse : Text → Except Text Item) (print : Item → Text) (lock : LockFile)
    (hparse : parse (print lock.toDocument) = .ok lock.toDocument) :
    (parseLock parse (print lock.toDocument) = .ok lock ↔ majorVersion lock.lockVersion = "1".toList) ∧
    ∀ packages packages' requiresPython inputHash, packages.Perm packages' →
      LockFile.DistinctReleases packages →
      print (LockFile.withInputHash packages requiresPython inputHash).toDocument =
        print (LockFile.withInputHash packages' requiresPython inputHash).toDocument := by
  constructor
  · have hread : parseLock parse (print lock.toDocument) =
        (validateLockVersion lock.lockVersion).map fun _ ↦ lock := by
      unfold parseLock
      rw [hparse]
      exact lock.parseDocument_toDocument
    rw [hread]
    unfold validateLockVersion
    split
    · rename_i hversion
      exact ⟨fun _ ↦ hversion, fun _ ↦ rfl⟩
    · rename_i hversion
      exact ⟨fun h ↦ (by cases h), fun h ↦ absurd h hversion⟩
  · intro packages packages' requiresPython inputHash hperm hdistinct
    rw [LockFile.withInputHash_perm hperm hdistinct]

def idnaLock : LockFile where
  lockVersion := "1.0".toList
  createdBy := "pon 0.1.0".toList
  requiresPython := ">=3.14".toList
  inputHash := "sha256:fixture".toList
  packages :=
    [{ name := "idna".toList, version := "3.10".toList, marker := none, kind := .native, wheels := []
       sdist := none, vcs := none
       directory := some { path := "vendor/idna".toList, editable := false } }]

def idnaText : Text :=
  ("lock-version = \"1.0\"\ncreated-by = \"pon 0.1.0\"\nrequires-python = \">=3.14\"\n\n" ++
    "[tool.pon]\ninput-hash = \"sha256:fixture\"\n\n" ++
    "[[packages]]\nname = \"idna\"\nversion = \"3.10\"\n\n" ++
    "[packages.directory]\npath = \"vendor/idna\"\neditable = false\n\n" ++
    "[packages.tool.pon]\nkind = \"native\"\n").toList

theorem parseLock_print_idna :
    parseLock (fun text ↦ if text = idnaText then .ok idnaLock.toDocument else .error []) idnaText =
      .ok idnaLock :=
  ((parseLock_print (fun text ↦ if text = idnaText then .ok idnaLock.toDocument else .error [])
    (fun _ ↦ idnaText) idnaLock (if_pos rfl)).1).mpr (by decide)

def laterLock : LockFile :=
  { idnaLock with lockVersion := "2.0".toList }

def emptyPackage (name : Text) : LockedPackage where
  name
  version := "1".toList
  marker := none
  kind := .pure
  wheels := []
  sdist := none
  directory := none
  vcs := none

def ascendingLock : LockFile :=
  { idnaLock with packages := [emptyPackage "attrs".toList, emptyPackage "idna".toList] }

def descendingLock : LockFile :=
  { idnaLock with packages := [emptyPackage "idna".toList, emptyPackage "attrs".toList] }

/-- The names of the packages of a document. -/
def packageNames (doc : Item) : Text :=
  match parseDocument doc with
  | .ok lock => lock.packages.flatMap LockedPackage.name
  | .error _ => []

/-- A lock file of another major version is not read, and lock files that are not built in the order of
their packages print different texts. -/
theorem round_trip_fails :
    (¬ ∀ (parse : Text → Except Text Item) (print : Item → Text) (lock : LockFile),
      parse (print lock.toDocument) = .ok lock.toDocument →
      parseLock parse (print lock.toDocument) = .ok lock) ∧
    ¬ ∀ (parse : Text → Except Text Item) (print : Item → Text) (a b : LockFile),
      parse (print a.toDocument) = .ok a.toDocument → parse (print b.toDocument) = .ok b.toDocument →
      a.packages.Perm b.packages → { a with packages := b.packages } = b →
      print a.toDocument = print b.toDocument := by
  constructor
  · intro hall
    have hread := hall (fun _ ↦ .ok laterLock.toDocument) (fun _ ↦ []) laterLock rfl
    have hrejected : parseLock (fun _ ↦ .ok laterLock.toDocument) [] =
        (validateLockVersion "2.0".toList).map fun _ ↦ laterLock := laterLock.parseDocument_toDocument
    rw [hrejected] at hread
    cases hread
  · intro hall
    have hnames : packageNames ascendingLock.toDocument ≠ packageNames descendingLock.toDocument := by
      decide
    have hsame := hall (fun text ↦ if text = packageNames ascendingLock.toDocument then
        .ok ascendingLock.toDocument else .ok descendingLock.toDocument)
      packageNames ascendingLock descendingLock (if_pos rfl) (if_neg hnames.symm)
      (List.Perm.swap _ _ _) rfl
    exact hnames hsame

end Pon.Lock
