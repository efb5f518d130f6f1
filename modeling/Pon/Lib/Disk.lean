import Mathlib.Data.List.Basic

/-!
# Files behind names

A directory maps names to files, and a file keeps its identity while names come and go: a writer
that has a file open writes to this file, whatever its name is by then. A name never leads to two
files, and a file has at most one name here, since there are no links. New files have a fresh
identity.
-/

namespace Pon.Disks

structure Disk (P B : Type*) where
  dir : P → Option ℕ
  content : ℕ → List B
  next : ℕ
  bound : ∀ {path file}, dir path = some file → file < next
  single : ∀ {path path' file}, dir path = some file → dir path' = some file → path = path'

/-- A single operation on the disk. -/
inductive DiskOp (P B : Type*)
  | nothing
  | remove (path : P)
  /-- Open for writing: an existing file is truncated, a missing one is created. -/
  | create (path : P)
  | write (file offset : ℕ) (bytes : List B)
  | rename (source target : P)

/-- The bytes of a file after a write; a gap before the offset is filled. -/
def overwrite {B : Type*} [Zero B] (content : List B) (offset : ℕ) (bytes : List B) : List B :=
  content.take offset ++ List.replicate (offset - content.length) 0 ++ bytes ++
    content.drop (offset + bytes.length)

namespace Disk

variable {P B : Type*} [DecidableEq P]

/-- The bytes of the file with the name. -/
def read (disk : Disk P B) (path : P) : Option (List B) :=
  (disk.dir path).map disk.content

def remove (disk : Disk P B) (path : P) : Disk P B where
  dir := Function.update disk.dir path none
  content := disk.content
  next := disk.next
  bound {path' file} h := by
    by_cases hpath : path' = path
    · rw [hpath, Function.update_self] at h
      cases h
    · rw [Function.update_of_ne hpath] at h
      exact disk.bound h
  single {p q file} hp hq := by
    by_cases hp' : p = path
    · rw [hp', Function.update_self] at hp
      cases hp
    · by_cases hq' : q = path
      · rw [hq', Function.update_self] at hq
        cases hq
      · rw [Function.update_of_ne hp'] at hp
        rw [Function.update_of_ne hq'] at hq
        exact disk.single hp hq

/-- Give the name to the next fresh file, which is empty. -/
def createNew (disk : Disk P B) (path : P) : Disk P B where
  dir := Function.update disk.dir path (some disk.next)
  content := Function.update disk.content disk.next []
  next := disk.next + 1
  bound {path' file} h := by
    by_cases hpath : path' = path
    · rw [hpath, Function.update_self, Option.some_inj] at h
      omega
    · rw [Function.update_of_ne hpath] at h
      exact Nat.lt_succ_of_lt (disk.bound h)
  single {p q file} hp hq := by
    by_cases hp' : p = path
    · by_cases hq' : q = path
      · exact hp'.trans hq'.symm
      · rw [hp', Function.update_self, Option.some_inj] at hp
        rw [Function.update_of_ne hq'] at hq
        exact absurd (hp ▸ disk.bound hq) (Nat.lt_irrefl _)
    · rw [Function.update_of_ne hp'] at hp
      by_cases hq' : q = path
      · rw [hq', Function.update_self, Option.some_inj] at hq
        exact absurd (hq ▸ disk.bound hp) (Nat.lt_irrefl _)
      · rw [Function.update_of_ne hq'] at hq
        exact disk.single hp hq

def setContent (disk : Disk P B) (file : ℕ) (bytes : List B) : Disk P B :=
  { disk with content := Function.update disk.content file bytes }

/-- The file that `create` opens. -/
def createdFile (disk : Disk P B) (path : P) : ℕ :=
  (disk.dir path).getD disk.next

def create (disk : Disk P B) (path : P) : Disk P B :=
  match disk.dir path with
  | some file => disk.setContent file []
  | none => disk.createNew path

/-- Without a file at `source` nothing happens. -/
def rename (disk : Disk P B) (source target : P) : Disk P B where
  dir path :=
    if (disk.dir source).isNone then disk.dir path
    else if path = target then disk.dir source
    else if path = source then none
    else disk.dir path
  content := disk.content
  next := disk.next
  bound {path file} h := by
    split_ifs at h
    · exact disk.bound h
    · exact disk.bound h
    · exact disk.bound h
  single {p q file} hp hq := by
    split_ifs at hp hq with hnone hpt hqt hqs hps hqt hqs
    · exact disk.single hp hq
    · exact hpt.trans hqt.symm
    · exact absurd (disk.single hq hp) hqs
    · exact absurd (disk.single hp hq) hps
    · exact disk.single hp hq

def apply [Zero B] (disk : Disk P B) : DiskOp P B → Disk P B
  | .nothing => disk
  | .remove path => disk.remove path
  | .create path => disk.create path
  | .write file offset bytes => disk.setContent file (overwrite (disk.content file) offset bytes)
  | .rename source target => disk.rename source target

/-- The operation concerns the name or the file behind it. -/
def Touches (disk : Disk P B) (op : DiskOp P B) (path : P) : Prop :=
  match op with
  | .nothing => False
  | .remove target | .create target => path = target
  | .write file _ _ => disk.dir path = some file
  | .rename source target => path = source ∨ path = target

instance (disk : Disk P B) (path : P) : (op : DiskOp P B) → Decidable (disk.Touches op path)
  | .nothing => isFalse id
  | .remove target | .create target => inferInstanceAs (Decidable (path = target))
  | .write file _ _ => inferInstanceAs (Decidable (disk.dir path = some file))
  | .rename source target => inferInstanceAs (Decidable (path = source ∨ path = target))

variable (disk : Disk P B) {path path' : P}

@[simp]
theorem read_remove_self : (disk.remove path).read path = none := by
  simp [read, remove]

variable {source target : P} {content : List B}

theorem read_rename_target (h : disk.read source = some content) :
    (disk.rename source target).read target = some content := by
  obtain ⟨file, hdir, hcontent⟩ := Option.map_eq_some_iff.mp h
  simp [read, rename, hdir, hcontent]

/-- A name that an operation does not touch keeps its file, and the file its bytes. -/
theorem apply_of_not_touches [Zero B] {op : DiskOp P B} (h : ¬ disk.Touches op path) :
    (disk.apply op).dir path = disk.dir path ∧
      ∀ file, disk.dir path = some file → (disk.apply op).content file = disk.content file := by
  cases op with
  | nothing => exact ⟨rfl, fun _ _ ↦ rfl⟩
  | remove target => exact ⟨Function.update_of_ne h _ _, fun _ _ ↦ rfl⟩
  | create target =>
    simp only [apply, create]
    cases hdir : disk.dir target with
    | some old =>
      refine ⟨rfl, fun file hfile ↦ Function.update_of_ne (fun hsame ↦ h ?_) _ _⟩
      exact disk.single hfile (hsame ▸ hdir)
    | none =>
      refine ⟨Function.update_of_ne h _ _, fun file hfile ↦ ?_⟩
      exact Function.update_of_ne (Nat.ne_of_lt (disk.bound hfile)) _ _
  | write old offset bytes =>
    refine ⟨rfl, fun file hfile ↦ Function.update_of_ne (fun hsame ↦ h ?_) _ _⟩
    exact hsame ▸ hfile
  | rename source target =>
    obtain ⟨hsource, htarget⟩ := not_or.mp h
    refine ⟨?_, fun _ _ ↦ rfl⟩
    simp [apply, rename, hsource, htarget]

theorem read_apply_of_not_touches [Zero B] {op : DiskOp P B} (h : ¬ disk.Touches op path) :
    (disk.apply op).read path = disk.read path := by
  obtain ⟨hdir, hcontent⟩ := disk.apply_of_not_touches h
  rw [read, read, hdir]
  cases hfile : disk.dir path with
  | none => rfl
  | some file => rw [Option.map_some, Option.map_some, hcontent file hfile]

theorem create_dir : (disk.create path).dir path = some (disk.createdFile path) := by
  unfold create createdFile
  split
  · rename_i file hdir
    simp [setContent, hdir]
  · rename_i hdir
    simp [createNew, hdir]

theorem create_content : (disk.create path).content (disk.createdFile path) = [] := by
  unfold create createdFile
  split
  · rename_i file hdir
    simp [setContent, hdir]
  · rename_i hdir
    simp [createNew, hdir]

omit [DecidableEq P] in
/-- A write at the end appends. -/
theorem overwrite_length [Zero B] (bytes : List B) :
    overwrite content content.length bytes = content ++ bytes := by
  simp [overwrite]

/-- A name other than the target keeps its file or loses it. -/
theorem read_rename_of_ne (h : path ≠ target)
    (hread : (disk.rename source target).read path = some content) :
    disk.read path = some content := by
  simp only [read, rename, h, if_false] at hread
  split_ifs at hread
  · exact hread
  · cases hread
  · exact hread

end Disk

end Pon.Disks
