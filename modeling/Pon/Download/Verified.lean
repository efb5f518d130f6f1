import Pon.Download.Artifact

/-!
# Verified artifacts

A call accepts a file in two ways: it hashes a file that exists, or it renames its part file. In
both the digest is that of bytes the call has read. As long as the other calls do not touch the names
that the call depends on, its part file holds the bytes it has received, and the file that it hashes is
the one it returns. Two downloads of one URL do touch them, since they share the name of the part file.
-/

namespace Pon.Download

open Disks Package Paths Transition

section Stages

variable {env : Env} {request : Request} {disk : Disk Path UInt8} {stage : Stage} {act : Act}

variable {path : Path} {received : List UInt8}

variable {fileUrl : Bool} {hashed : List UInt8} {final : Path → Prop}
  {complete complete' : List (Path × List UInt8)}

/-- What a call relies on in a stage: a part file holds the received bytes and has no final name, a
body that is about to be renamed is complete and passes the check, a file that is hashed begins with
the hashed bytes, and a file that is returned is accepted by the policy. -/
def Holds (env : Env) (request : Request) (final : Path → Prop) (disk : Disk Path UInt8)
    (complete : List (Path × List UInt8)) : Stage → Prop
  | .streaming file received =>
    disk.dir (env.partPath request) = some file ∧ disk.content file = received ∧
      ¬ final (env.partPath request)
  | .renaming received =>
    disk.read (env.partPath request) = some received ∧
      checkDigest (env.hexDigest received) request.policy = .ok .pass ∧
        ∀ artifact, env.cachedArtifactPath request = .ok artifact → (artifact, received) ∈ complete
  | .hashing path _ file hashed => request.policy.demandsHash = true →
    disk.dir path = some file ∧ hashed <+: disk.content file
  | .returning (.ok path) => request.policy.demandsHash = true →
    ∃ content, disk.read path = some content ∧ request.policy.Accepts (env.hexDigest content)
  | _ => True

/-- An operation that does not touch the name a call depends on leaves what it relies on. -/
theorem Holds.apply {op : DiskOp Path UInt8} (h : Holds env request final disk complete stage)
    (apart : ∀ path, env.uses request stage = some path → ¬ disk.Touches op path)
    (more : complete ⊆ complete') :
    Holds env request final (disk.apply op) complete' stage := by
  match stage with
  | .streaming file received =>
    obtain ⟨hdir, hcontent⟩ := disk.apply_of_not_touches (apart _ rfl)
    exact ⟨hdir.trans h.1, (hcontent file h.1).trans h.2.1, h.2.2⟩
  | .renaming received =>
    exact ⟨(disk.read_apply_of_not_touches (apart _ rfl)).trans h.1, h.2.1,
      fun artifact hartifact ↦ more (h.2.2 artifact hartifact)⟩
  | .hashing path fileUrl file hashed =>
    intro hdemands
    obtain ⟨hdir, hcontent⟩ := disk.apply_of_not_touches (apart path (if_pos hdemands))
    obtain ⟨hfile, hprefix⟩ := h hdemands
    exact ⟨hdir.trans hfile, by rwa [hcontent file hfile]⟩
  | .returning (.ok path) =>
    intro hdemands
    rw [disk.read_apply_of_not_touches (apart path (if_pos hdemands))]
    exact h hdemands
  | .returning (.error _) | .start | .checkFile | .opening _ _ | .removing | .createDirs | .removePart
  | .requesting | .creating | .cleaning _ | .returned _ => trivial

/-- A file that has been read to its end is accepted where its digest passes. -/
theorem holds_verified (hread : request.policy.demandsHash = true → disk.read path = some hashed) :
    Holds env request final disk complete (verified env request path fileUrl hashed) := by
  unfold verified
  split
  · trivial
  · rename_i hpass
    exact fun hdemands ↦ ⟨hashed, hread hdemands, checkDigest_pass hpass hdemands⟩
  · split <;> trivial

theorem holds_downloaded (hread : disk.read (env.partPath request) = some received)
    (hcomplete : ∀ artifact, env.cachedArtifactPath request = .ok artifact →
      (artifact, received) ∈ complete) :
    Holds env request final disk complete (downloaded env request received) := by
  unfold downloaded
  split
  · trivial
  · exact ⟨hread, ‹_›, hcomplete⟩
  · trivial

/-- A step of a call establishes what the call relies on afterwards. -/
theorem Holds.next {stage' : Stage} (h : Holds env request final disk complete stage)
    (hnext : nextStage env request disk stage act = some stage')
    (hcreates : ∀ path, diskOp env request stage act = .create path → ¬ final path) :
    Holds env request final (disk.apply (diskOp env request stage act))
      (completed env request stage act ++ complete) stage' := by
  unfold nextStage at hnext
  split at hnext
  case h_1 =>
    rw [Option.some_inj] at hnext
    subst hnext
    split_ifs
    · split <;> trivial
    · trivial
    · split <;> trivial
  case h_2 =>
    split at hnext
    · cases hnext
    · rw [Option.some_inj] at hnext
      subst hnext
      split_ifs <;> trivial
  case h_4 path fileUrl =>
    obtain ⟨file, hdir, rfl⟩ := Option.map_eq_some_iff.mp hnext
    exact fun _ ↦ ⟨hdir, List.nil_prefix⟩
  case h_6 path fileUrl file hashed size =>
    split_ifs at hnext with hsize hempty
    · cases hnext
      refine holds_verified fun hdemands ↦ ?_
      obtain ⟨hdir, rest, hrest⟩ := h hdemands
      have hnone : rest = [] := by
        rw [bytesRead, ← hrest, List.drop_left, List.take_eq_nil_iff] at hempty
        exact hempty.resolve_left hsize
      rw [hnone, List.append_nil] at hrest
      exact (congrArg (Option.map disk.content) hdir).trans (congrArg some hrest.symm)
    · cases hnext
      intro hdemands
      obtain ⟨hdir, rest, hrest⟩ := h hdemands
      refine ⟨hdir, ?_⟩
      change hashed ++ bytesRead disk file hashed size <+: disk.content file
      rw [bytesRead, ← hrest, List.drop_left]
      exact (List.prefix_append_right_inj hashed).mpr (List.take_prefix size rest)
  case h_16 =>
    cases hnext
    exact ⟨disk.create_dir, disk.create_content, hcreates _ rfl⟩
  case h_18 file received bytes =>
    obtain ⟨hdir, hcontent, hpart⟩ := h
    split_ifs at hnext with hempty
    · cases hnext
      subst hempty
      refine holds_downloaded
        ((congrArg (Option.map disk.content) hdir).trans (congrArg some hcontent))
        fun artifact hartifact ↦ List.mem_append_left _ ?_
      simp [completed, hartifact]
    · cases hnext
      simp only [diskOp, hempty, Disk.apply]
      refine ⟨hdir, ?_, hpart⟩
      change Function.update disk.content file _ file = _
      rw [Function.update_self, hcontent, Disk.overwrite_length]
  case h_23 received =>
    split at hnext
    · rename_i artifact file hartifact hdir
      cases hnext
      simp only [diskOp, hartifact, Disk.apply]
      exact fun hdemands ↦ ⟨received, Disk.read_rename_target disk h.1, checkDigest_pass h.2.1 hdemands⟩
    · cases hnext
  all_goals
    first
    | cases hnext
      trivial
    | cases hnext

theorem diskOp_rename {source target : Path}
    (h : diskOp env request stage act = .rename source target) :
    ∃ received, stage = .renaming received ∧ act = .next ∧ source = env.partPath request ∧
      env.cachedArtifactPath request = .ok target := by
  unfold diskOp at h
  split at h
  case h_1 => split at h <;> cases h
  case h_5 => split at h <;> cases h
  case h_6 received =>
    split at h
    · cases h
    · rename_i artifact hartifact
      cases h
      exact ⟨received, rfl, rfl, rfl, hartifact⟩
  all_goals cases h

theorem diskOp_write {file offset : ℕ} {bytes : List UInt8}
    (h : diskOp env request stage act = .write file offset bytes) :
    ∃ received, stage = .streaming file received := by
  unfold diskOp at h
  split at h
  case h_1 | h_6 => split at h <;> cases h
  case h_5 file' received bytes' =>
    split at h
    · cases h
    · cases h
      exact ⟨received, rfl⟩
  all_goals cases h

end Stages

section Machine

variable {C : Type*} {env : Env} {request : C → Request}

/-- Every call has what it relies on, and a file under a final name is complete. -/
structure Inv (env : Env) (request : C → Request) (s : State C) : Prop where
  holds : ∀ c, Holds env (request c) (FinalName env request) s.disk s.complete (s.stage c)
  whole : ∀ path content, FinalName env request path → s.disk.read path = some content →
    (path, content) ∈ s.complete

variable {s : State C}

theorem inv_of_initial (h : Initial env request s) : Inv env request s where
  holds c := by
    rw [h.stage c]
    trivial
  whole := h.complete

theorem Inv.verified (h : Inv env request s) : Verified env request s where
  accepted c path hstage hdemands := by
    have hholds := h.holds c
    rw [hstage] at hholds
    exact hholds hdemands
  whole := h.whole

variable {c : C} {act : Act}

/-- A file under a final name is complete after the operation. -/
theorem whole_apply (h : Inv env request s) (hguard : Undisturbed env request s (c, act))
    {path : Path} {content : List UInt8} (hfinal : FinalName env request path)
    (hread : (s.disk.apply (diskOp env (request c) (s.stage c) act)).read path = some content) :
    (path, content) ∈ s.complete := by
  have hkept : ¬ s.disk.Touches (diskOp env (request c) (s.stage c) act) path →
      (path, content) ∈ s.complete := fun hapart ↦
    h.whole path content hfinal ((s.disk.read_apply_of_not_touches hapart).symm.trans hread)
  cases hop : diskOp env (request c) (s.stage c) act with
  | nothing => exact hkept (hop ▸ id)
  | remove target =>
    by_cases hpath : path = target
    · rw [hop, hpath, Disk.apply, Disk.read_remove_self] at hread
      cases hread
    · exact hkept (hop ▸ hpath)
  | create target =>
    refine hkept (hop ▸ fun hpath ↦ ?_)
    exact hguard.creates target hop (hpath ▸ hfinal)
  | write file offset bytes =>
    -- The call writes to the file that is under its part name, and this is no final name.
    obtain ⟨received, hstage⟩ := diskOp_write hop
    have hholds := h.holds c
    rw [hstage] at hholds
    refine hkept (hop ▸ fun hdir ↦ hholds.2.2 ?_)
    exact s.disk.single hdir hholds.1 ▸ hfinal
  | rename source target =>
    rw [hop, Disk.apply] at hread
    obtain ⟨received, hstage, _, rfl, hartifact⟩ := diskOp_rename hop
    by_cases hpath : path = target
    · subst hpath
      have hholds := h.holds c
      rw [hstage] at hholds
      rw [Disk.read_rename_target _ hholds.1, Option.some_inj] at hread
      exact hread ▸ hholds.2.2 path hartifact
    · exact h.whole path content hfinal (Disk.read_rename_of_ne _ hpath hread)

variable [DecidableEq C]

/-- One step with which no call gets in the way of another keeps the invariant. -/
theorem step_inv {s' : State C} (h : Inv env request s)
    (hguard : Undisturbed env request s (c, act)) (hstep : step env request s c act = some s') :
    Inv env request s' := by
  obtain ⟨stage, hnext, rfl⟩ := Option.map_eq_some_iff.mp hstep
  refine ⟨fun other ↦ ?_,
    fun path content hfinal hread ↦ List.mem_append_right _ (whole_apply h hguard hfinal hread)⟩
  by_cases hother : other = c
  · subst hother
    simp only [Function.update_self]
    exact (h.holds other).next hnext hguard.creates
  · simp only [Function.update_of_ne hother]
    exact (h.holds other).apply (fun path ↦ hguard.apart other path hother)
      (List.subset_append_right _ _)

end Machine

/-- In every run of any number of calls that do not get in each other's way, a returned artifact is
accepted by the policy of its call, and no file under a final name is a part of a download. -/
theorem artifacts_verified {C : Type*} [DecidableEq C] (env : Env) (request : C → Request)
    (s : State C)
    (h : Reachable (Initial env request) (Undisturbed env request) (Step env request) s) :
    Verified env request s := by
  have hinv : Inv env request s := h.invariant _ (fun _ hinit ↦ inv_of_initial hinit)
    fun _ _ _ hinv hguard hstep ↦ step_inv hinv hguard hstep
  exact hinv.verified

def request : Request where
  url := "https://h/w.whl".toList
  filename := "w.whl".toList
  policy := .required ["sha256:50e721e49c013f00c62cf59f2163542a9d8df02464efeb615d31051b0fddc326".toList]

/-- SHA-256 on the URL of the request, the body of one byte `w`, and the empty file. -/
def sha256 (bytes : List UInt8) : List UInt8 :=
  if bytes = request.url.bytes then
    [192, 72, 236, 99, 30, 58, 151, 95, 160, 225, 135, 179, 22, 140, 152, 205, 226, 166, 50, 0, 102,
      118, 24, 144, 189, 56, 94, 51, 144, 8, 95, 203]
  else if bytes = [119] then
    [80, 231, 33, 228, 156, 1, 63, 0, 198, 44, 245, 159, 33, 99, 84, 42, 157, 141, 240, 36, 100, 239,
      235, 97, 93, 49, 5, 27, 15, 221, 195, 38]
  else if bytes = [] then
    [227, 176, 196, 66, 152, 252, 28, 20, 154, 251, 244, 200, 153, 111, 185, 36, 39, 174, 65, 228,
      100, 155, 147, 76, 164, 149, 153, 27, 120, 82, 184, 85]
  else []

def env : Env where
  cacheDir := components "/cache".toList
  sha256 := sha256

/-- The path of the artifact. -/
def artifact : Path :=
  components
    "/cache/wheels/c048ec631e3a975fa0e187b3168c98cde2a6320066761890bd385e3390085fcb/w.whl".toList

theorem cachedArtifactPath_request : env.cachedArtifactPath request = .ok artifact := by
  decide

def emptyDisk : Disk Path UInt8 where
  dir _ := none
  content _ := []
  next := 0
  bound h := nomatch h
  single h := nomatch h

theorem not_accepts_empty : ¬ request.policy.Accepts (env.hexDigest []) := by
  rintro ⟨entry, hmem, _, hdigest⟩
  obtain rfl := List.mem_singleton.mp hmem
  revert hdigest
  decide

/-- An empty cache, and two calls. -/
def start : State Bool where
  disk := emptyDisk
  stage _ := .start
  complete := []

theorem initial_start : Initial env (fun _ : Bool ↦ request) start where
  stage _ := rfl
  complete _ _ _ hread := nomatch hread

/-- Whether the step does not get in the way of the other call. -/
def undisturbed (s : State Bool) (label : Bool × Act) : Bool :=
  let op := diskOp env request (s.stage label.1) label.2
  (env.uses request (s.stage !label.1)).all (fun path ↦ !decide (s.disk.Touches op path)) &&
    match op with
    | .create path => decide (path ≠ artifact)
    | _ => true

theorem undisturbed_sound {s : State Bool} {label : Bool × Act} (h : undisturbed s label = true) :
    Undisturbed env (fun _ ↦ request) s label := by
  unfold undisturbed at h
  obtain ⟨hother, hcreate⟩ := Bool.and_eq_true_iff.mp h
  refine ⟨fun other path hne huses ↦ ?_, fun path hop hfinal ↦ ?_⟩
  · obtain rfl : other = !label.1 := by
      cases other <;> cases hlabel : label.1 <;> simp_all
    simpa [huses] using hother
  · obtain ⟨_, hpath⟩ := hfinal
    obtain rfl : artifact = path := Except.ok.inj (cachedArtifactPath_request.symm.trans hpath)
    simp [hop] at hcreate

/-- The steps of a call with an empty cache up to the first byte of the response. -/
def requestLabels (c : Bool) : List (Bool × Act) :=
  [(c, .next), (c, .next), (c, .next), (c, .next), (c, .next), (c, .next)]

/-- The response is one byte; then the part file is renamed. -/
def responseLabels (c : Bool) : List (Bool × Act) :=
  [(c, .receive [119]), (c, .receive []), (c, .next)]

/-- The second call starts when the first one is about to return, and hashes the artifact. -/
def cachedLabels : List (Bool × Act) :=
  requestLabels false ++ responseLabels false ++
    [(true, .next), (true, .next), (true, .next), (true, .read 65536), (true, .read 65536)]

/-- The second call removes the part file of the first one and creates its own. -/
def sharedLabels : List (Bool × Act) :=
  requestLabels false ++ requestLabels true ++ responseLabels false

def returningPath (s : State Bool) (c : Bool) : Option Path :=
  match s.stage c with
  | .returning (.ok path) => some path
  | _ => none

theorem stage_of_returningPath {c : Bool} {path : Path} (h : returningPath s c = some path) :
    s.stage c = .returning (.ok path) := by
  unfold returningPath at h
  split at h
  · cases h
    assumption
  · cases h

theorem artifacts_verified_cached :
    ∃ s, runLabels undisturbed (fun s label ↦ step env (fun _ ↦ request) s label.1 label.2) start
        cachedLabels = some s ∧
      s.stage false = .returning (.ok artifact) ∧ s.stage true = .returning (.ok artifact) ∧
        Verified env (fun _ ↦ request) s := by
  let run := runLabels undisturbed (fun s label ↦ step env (fun _ ↦ request) s label.1 label.2)
    start cachedLabels
  have hstages : run.map (fun s ↦ (returningPath s false, returningPath s true)) =
      some (some artifact, some artifact) := by decide
  obtain ⟨s, hrun, hstages⟩ := Option.map_eq_some_iff.mp hstages
  rw [Prod.mk.injEq] at hstages
  have hreachable : Reachable (Initial env fun _ ↦ request) (Undisturbed env fun _ ↦ request)
      (Step env fun _ ↦ request) s :=
    Reachable.runLabels (fun _ _ h ↦ undisturbed_sound h) (.start initial_start) hrun
  exact ⟨s, hrun, stage_of_returningPath hstages.1, stage_of_returningPath hstages.2,
    artifacts_verified env _ s hreachable⟩

/-- Without the condition the first call returns the empty file that the second one has created. -/
theorem artifacts_unverified :
    ¬ ∀ (env : Env) (request : Bool → Request) (s : State Bool),
      Reachable (Initial env request) (fun _ _ ↦ True) (Step env request) s →
        Verified env request s := by
  intro hall
  let run := runLabels (fun _ _ ↦ true)
    (fun s label ↦ step env (fun _ ↦ request) s label.1 label.2) start sharedLabels
  have hfinal : run.map (fun s ↦ (returningPath s false, s.disk.read artifact)) =
      some (some artifact, some []) := by decide
  obtain ⟨s, hrun, hfinal⟩ := Option.map_eq_some_iff.mp hfinal
  rw [Prod.mk.injEq] at hfinal
  have hreachable : Reachable (Initial env fun _ ↦ request) (fun _ _ ↦ True)
      (Step env fun _ ↦ request) s :=
    Reachable.runLabels (fun _ _ _ ↦ trivial) (.start initial_start) hrun
  have hverified := hall env (fun _ ↦ request) s hreachable
  obtain ⟨content, hread, haccepts⟩ :=
    hverified.accepted false artifact (stage_of_returningPath hfinal.1) rfl
  obtain rfl : [] = content := Option.some_inj.mp (hfinal.2.symm.trans hread)
  exact not_accepts_empty haccepts

end Pon.Download
