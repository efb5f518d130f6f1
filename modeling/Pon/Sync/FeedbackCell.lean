import Pon.Lib.Transition
import Mathlib.Data.List.Basic

/-!
# Publication in feedback cells

A cache record is spread over five atomic words. A recorder claims the cell by its version word,
stores the other words and puts its own version in; a reader loads the version, the other words and
the version again. Each load, store and compare-and-exchange is one step, and the steps of any number
of threads interleave freely. A reader that sees its version again takes the words for one record,
which they are unless a publication has put the same version back in the meantime.
-/

namespace Pon.Feedback

/-! ## Cells and records -/

/-- One record: the guard version and the words that it guards. -/
structure IcWords where
  version : UInt32
  aux : UInt32
  payload : UInt64
  identity : UInt64
  extra : UInt64
  deriving DecidableEq

/-- The words of a cell. `packed` is the version word. -/
structure FeedbackCell where
  packed : UInt32 := 0
  aux : UInt32 := 0
  payload : UInt64 := 0
  identity : UInt64 := 0
  extra : UInt64 := 0

def icWriting : UInt32 := 0xffffffff

def icCallPresent : UInt32 := 1

def attrKindShift : UInt64 := 32

inductive AttrCacheKind where
  | slot | dictOffset | descriptor
  deriving DecidableEq

def AttrCacheKind.byte : AttrCacheKind → UInt64
  | .slot => 1
  | .dictOffset => 2
  | .descriptor => 3

structure AttrIC where
  typeVersion : UInt32
  kind : AttrCacheKind
  offset : UInt32
  descriptor : UInt64

structure GlobalIC where
  dictVersion : UInt32
  builtinsVersion : UInt32
  valuePtr : UInt64

/-- The record that an attribute load publishes, unless it is refused. -/
def recordAttr (typeIdentity : UInt64) (ic : AttrIC) : Option IcWords :=
  if typeIdentity = 0 ∨ ic.typeVersion = 0 ∨ ic.typeVersion = icWriting then none
  else some
    { version := ic.typeVersion
      aux := 0
      payload := ic.offset.toUInt64 ||| (ic.kind.byte <<< attrKindShift)
      identity := typeIdentity
      extra := ic.descriptor }

def recordGlobal (dictIdentity : UInt64) (ic : GlobalIC) : Option IcWords :=
  if dictIdentity = 0 ∨ ic.dictVersion = 0 ∨ ic.dictVersion = icWriting ∨
      ic.builtinsVersion = icWriting then none
  else some
    { version := ic.dictVersion
      aux := ic.builtinsVersion
      payload := ic.valuePtr
      identity := dictIdentity
      extra := 0 }

/-- The record that a call publishes after it has read the cell. The first target stays, and a second
one clears the identity. -/
def recordCall (calleeIdentity : UInt64) : Option IcWords → Option IcWords
  | none => some ⟨icCallPresent, 0, 0, calleeIdentity, 0⟩
  | some words =>
    if words.identity = 0 ∨ words.identity = calleeIdentity then none
    else some ⟨icCallPresent, 0, 0, 0, 0⟩

/-! ## Threads -/

/-- What a thread starts on the cell. -/
inductive Operation where
  | consult
  | recordAttr (typeIdentity : UInt64) (ic : AttrIC)
  | recordGlobal (dictIdentity : UInt64) (ic : GlobalIC)
  | recordCall (calleeIdentity : UInt64)

/-- The next load of `ic_snapshot`, with the words loaded so far. -/
inductive Reader where
  | packed
  | aux (version : UInt32)
  | payload (version aux : UInt32)
  | identity (version aux : UInt32) (payload : UInt64)
  | extra (version aux : UInt32) (payload identity : UInt64)
  | recheck (words : IcWords)

/-- The next step of a thread. A snapshot is taken for itself, or for the record of a call. -/
inductive Thread where
  | idle
  | reading (callee : Option UInt64) (reader : Reader)
  | observe (words : IcWords)
  | claim (words : IcWords) (observed : UInt32)
  | storeAux (words : IcWords)
  | storePayload (words : IcWords)
  | storeIdentity (words : IcWords)
  | storeExtra (words : IcWords)
  | storePacked (words : IcWords)

/-- The outcome of a step: the cell, the thread, the record of a snapshot that returns one and the
words that `ic_publish` is called with. -/
structure Turn where
  cell : FeedbackCell
  thread : Thread
  snapshot : Option IcWords := none
  call : Option IcWords := none

/-- `ic_publish` is called, if there is something to publish. -/
def publish (cell : FeedbackCell) (record : Option IcWords) : Turn :=
  { cell, thread := record.elim .idle .observe, call := record }

/-- `ic_snapshot` returns to its caller. -/
def snapshotReturns (cell : FeedbackCell) (callee : Option UInt64) (result : Option IcWords) : Turn :=
  { publish cell (callee.bind fun callee ↦ recordCall callee result) with snapshot := result }

def Operation.start (cell : FeedbackCell) : Operation → Turn
  | .consult => { cell, thread := .reading none .packed }
  | .recordAttr typeIdentity ic => publish cell (Feedback.recordAttr typeIdentity ic)
  | .recordGlobal dictIdentity ic => publish cell (Feedback.recordGlobal dictIdentity ic)
  | .recordCall calleeIdentity =>
    { cell, thread := if calleeIdentity = 0 then .idle else .reading (some calleeIdentity) .packed }

/-- One load of a snapshot. -/
def Reader.advance (cell : FeedbackCell) (callee : Option UInt64) : Reader → Turn
  | .packed =>
    if cell.packed = 0 ∨ cell.packed = icWriting then snapshotReturns cell callee none
    else { cell, thread := .reading callee (.aux cell.packed) }
  | .aux version => { cell, thread := .reading callee (.payload version cell.aux) }
  | .payload version aux' => { cell, thread := .reading callee (.identity version aux' cell.payload) }
  | .identity version aux' payload' =>
    { cell, thread := .reading callee (.extra version aux' payload' cell.identity) }
  | .extra version aux' payload' identity' =>
    { cell, thread := .reading callee (.recheck ⟨version, aux', payload', identity', cell.extra⟩) }
  | .recheck words =>
    snapshotReturns cell callee (if cell.packed = words.version then some words else none)

/-- One atomic step of a thread. -/
def Thread.advance (cell : FeedbackCell) : Thread → Turn
  | .idle => { cell, thread := .idle }
  | .reading callee reader => reader.advance cell callee
  | .observe words =>
    { cell, thread := if cell.packed = icWriting then .idle else .claim words cell.packed }
  | .claim words observed =>
    if cell.packed = observed then
      { cell := { cell with packed := icWriting }, thread := .storeAux words }
    else { cell, thread := .idle }
  | .storeAux words =>
    { cell := { cell with aux := words.aux }, thread := .storePayload words }
  | .storePayload words =>
    { cell := { cell with payload := words.payload }, thread := .storeIdentity words }
  | .storeIdentity words =>
    { cell := { cell with identity := words.identity }, thread := .storeExtra words }
  | .storeExtra words =>
    { cell := { cell with extra := words.extra }, thread := .storePacked words }
  | .storePacked words =>
    { cell := { cell with packed := words.version }, thread := .idle }

/-! ## Runs -/

/-- The cell and the threads, with the words of all calls of `ic_publish` and all records that
snapshots have returned. -/
structure System where
  cell : FeedbackCell := {}
  threads : ℕ → Thread := fun _ ↦ .idle
  calls : List IcWords := []
  snapshots : List IcWords := []

inductive Label where
  | start (thread : ℕ) (operation : Operation)
  | advance (thread : ℕ)

def System.take (s : System) (i : ℕ) (turn : Turn) : System where
  cell := turn.cell
  threads := Function.update s.threads i turn.thread
  calls := s.calls ++ turn.call.toList
  snapshots := s.snapshots ++ turn.snapshot.toList

def System.step (s : System) : Label → Option System
  | .start i operation =>
    match s.threads i with
    | .idle => some (s.take i (operation.start s.cell))
    | _ => none
  | .advance i => some (s.take i ((s.threads i).advance s.cell))

/-- The version that a snapshot in progress has loaded. -/
def Reader.version : Reader → Option UInt32
  | .packed => none
  | .aux version | .payload version _ | .identity version _ _ | .extra version _ _ _ => some version
  | .recheck words => some words.version

def Thread.readVersion : Thread → Option UInt32
  | .reading _ reader => reader.version
  | _ => none

/-- A step that does not put a version into the cell that a snapshot in progress has loaded. -/
def System.PutsNoReadVersion (s : System) : Label → Prop
  | .start _ _ => True
  | .advance i => ∀ words, s.threads i = .storePacked words →
    ∀ j, (s.threads j).readVersion ≠ some words.version

/-- The states of runs whose steps all meet `guard`. -/
def Reachable (guard : System → Label → Prop) : System → Prop :=
  Transition.Reachable (· = {}) guard fun s label s' ↦ s.step label = some s'

/-! ## The invariant -/

/-- The record that the words of a cell make up. -/
def FeedbackCell.words (cell : FeedbackCell) : IcWords :=
  ⟨cell.packed, cell.aux, cell.payload, cell.identity, cell.extra⟩

/-- Whether a thread holds the cell, so that it alone stores in it. -/
def Thread.claimed : Thread → Bool
  | .storeAux _ | .storePayload _ | .storeIdentity _ | .storeExtra _ | .storePacked _ => true
  | _ => false

/-- The words that a snapshot has loaded are those of the cell. -/
def Reader.Current (cell : FeedbackCell) : Reader → Prop
  | .packed | .aux _ => True
  | .payload _ aux' => cell.aux = aux'
  | .identity _ aux' payload' => cell.aux = aux' ∧ cell.payload = payload'
  | .extra _ aux' payload' identity' =>
    cell.aux = aux' ∧ cell.payload = payload' ∧ cell.identity = identity'
  | .recheck words =>
    cell.aux = words.aux ∧ cell.payload = words.payload ∧ cell.identity = words.identity ∧
      cell.extra = words.extra

/-- A version that a record may have. -/
def Published (version : UInt32) : Prop := version ≠ 0 ∧ version ≠ icWriting

/-- What a thread relies on. A snapshot is up to date as long as the cell has its version, and the
thread that holds the cell has stored its words up to the one it stores next. -/
def Thread.Sound (cell : FeedbackCell) (calls : List IcWords) : Thread → Prop
  | .idle => True
  | .reading _ reader =>
    ∀ version, reader.version = some version →
      Published version ∧ (cell.packed = version → reader.Current cell)
  | .observe words => words ∈ calls
  | .claim words observed => words ∈ calls ∧ observed ≠ icWriting
  | .storeAux words => words ∈ calls ∧ cell.packed = icWriting
  | .storePayload words => words ∈ calls ∧ cell.packed = icWriting ∧ cell.aux = words.aux
  | .storeIdentity words =>
    words ∈ calls ∧ cell.packed = icWriting ∧ cell.aux = words.aux ∧ cell.payload = words.payload
  | .storeExtra words =>
    words ∈ calls ∧ cell.packed = icWriting ∧ cell.aux = words.aux ∧
      cell.payload = words.payload ∧ cell.identity = words.identity
  | .storePacked words =>
    words ∈ calls ∧ cell.packed = icWriting ∧ cell.aux = words.aux ∧
      cell.payload = words.payload ∧ cell.identity = words.identity ∧ cell.extra = words.extra

/-- Only the thread that holds the cell stores in it, and between publications the cell holds the words
of one call. -/
structure System.Inv (s : System) : Prop where
  sound : ∀ i, (s.threads i).Sound s.cell s.calls
  exclusive : ∀ i j, (s.threads i).claimed = true → (s.threads j).claimed = true → i = j
  published : Published s.cell.packed → s.cell.words ∈ s.calls
  versions : ∀ words ∈ s.calls, Published words.version
  snapshots : ∀ words ∈ s.snapshots, words ∈ s.calls

variable {cell : FeedbackCell} {calls : List IcWords}

theorem Thread.Sound.packed_of_claimed {thread : Thread} (sound : thread.Sound cell calls)
    (claimed : thread.claimed = true) : cell.packed = icWriting := by
  cases thread with
  | storeAux words => exact sound.2
  | storePayload words | storeIdentity words | storeExtra words | storePacked words => exact sound.2.1
  | _ => cases claimed

theorem Thread.Sound.published_readVersion {thread : Thread} (sound : thread.Sound cell calls)
    {version : UInt32} (loaded : thread.readVersion = some version) : Published version := by
  cases thread with
  | reading callee reader => exact (sound version loaded).1
  | _ => cases loaded

variable {calls' : List IcWords}

/-- What another thread relies on does not change with the cell, if that thread does not hold the cell
and the cell does not get the version that it has loaded. -/
theorem Thread.Sound.elsewhere {cell' : FeedbackCell} {thread : Thread}
    (sound : thread.Sound cell calls) (sub : calls ⊆ calls') (free : thread.claimed = false)
    (other : ∀ version, thread.readVersion = some version → cell'.packed ≠ version) :
    thread.Sound cell' calls' := by
  cases thread with
  | idle => trivial
  | reading callee reader =>
    intro version loaded
    exact ⟨(sound version loaded).1, fun now ↦ absurd now (other version loaded)⟩
  | observe words => exact sub sound
  | claim words observed => exact ⟨sub sound.1, sound.2⟩
  | _ => cases free

theorem Thread.Sound.mono {thread : Thread}
    (sound : thread.Sound cell calls) (sub : calls ⊆ calls') : thread.Sound cell calls' := by
  cases thread with
  | idle => trivial
  | reading callee reader => exact sound
  | observe words => exact sub sound
  | _ => exact ⟨sub sound.1, sound.2⟩

namespace System.Inv

variable {s : System} {i : ℕ} {turn : Turn}

/-- A turn keeps the invariant if its thread and the others are sound after it. -/
theorem take (inv : s.Inv) (own : turn.thread.Sound turn.cell (s.calls ++ turn.call.toList))
    (others : ∀ j, j ≠ i → (s.threads j).Sound turn.cell (s.calls ++ turn.call.toList))
    (claims : turn.thread.claimed = true → ∀ j, j ≠ i → (s.threads j).claimed = false)
    (published : Published turn.cell.packed → turn.cell.words ∈ s.calls ++ turn.call.toList)
    (versions : ∀ words ∈ turn.call, Published words.version)
    (snapshots : ∀ words ∈ turn.snapshot, words ∈ s.calls) : (s.take i turn).Inv where
  sound j := by
    by_cases same : j = i
    · subst same
      simpa only [System.take, Function.update_self] using own
    · simpa only [System.take, Function.update_of_ne same] using others j same
  exclusive j k hj hk := by
    by_cases isJ : j = i <;> by_cases isK : k = i
    · rw [isJ, isK]
    · simp only [System.take, isJ, Function.update_self, Function.update_of_ne isK] at hj hk
      rw [claims hj k isK] at hk
      cases hk
    · simp only [System.take, isK, Function.update_self, Function.update_of_ne isJ] at hj hk
      rw [claims hk j isJ] at hj
      cases hj
    · simp only [System.take, Function.update_of_ne isJ, Function.update_of_ne isK] at hj hk
      exact inv.exclusive j k hj hk
  published := published
  versions words mem := by
    rcases List.mem_append.mp mem with old | new
    · exact inv.versions words old
    · exact versions words (Option.mem_toList.mp new)
  snapshots words mem := by
    refine List.mem_append_left _ ?_
    rcases List.mem_append.mp mem with old | new
    · exact inv.snapshots words old
    · exact snapshots words (Option.mem_toList.mp new)

/-- A turn that leaves the cell alone and does not claim it. -/
theorem take_same (inv : s.Inv) (same : turn.cell = s.cell) (unclaimed : turn.thread.claimed = false)
    (own : turn.thread.Sound s.cell (s.calls ++ turn.call.toList))
    (versions : ∀ words ∈ turn.call, Published words.version)
    (snapshots : ∀ words ∈ turn.snapshot, words ∈ s.calls) : (s.take i turn).Inv := by
  have sub : s.calls ⊆ s.calls ++ turn.call.toList := List.subset_append_left _ _
  refine inv.take (same ▸ own) (fun j _ ↦ same ▸ (inv.sound j).mono sub) ?_ ?_ versions snapshots
  · intro claimed
    rw [unclaimed] at claimed
    cases claimed
  · rw [same]
    exact fun published ↦ sub (inv.published published)

theorem take_publish (inv : s.Inv) {record : Option IcWords}
    (versions : ∀ words ∈ record, Published words.version) {snapshot : Option IcWords}
    (snapshots : ∀ words ∈ snapshot, words ∈ s.calls) :
    (s.take i { publish s.cell record with snapshot }).Inv := by
  refine inv.take_same rfl ?_ ?_ versions snapshots
  · cases record <;> rfl
  · cases record with
    | none => trivial
    | some words => exact List.mem_append_right _ (List.mem_singleton_self words)

/-- A store of the thread that holds the cell. -/
theorem take_store (inv : s.Inv) {thread : Thread}
    (held : (s.threads i).claimed = true) (packed : cell.packed = icWriting)
    (own : thread.Sound cell s.calls) : (s.take i { cell, thread }).Inv := by
  have others (j : ℕ) (other : j ≠ i) : (s.threads j).claimed = false := by
    by_contra claimed
    exact other (inv.exclusive j i (eq_true_of_ne_false claimed) held)
  refine inv.take (own.mono (List.subset_append_left _ _)) (fun j other ↦ ?_) (fun _ ↦ others) ?_
    nofun nofun
  · refine (inv.sound j).elsewhere (List.subset_append_left _ _) (others j other) ?_
    intro version loaded now
    exact ((inv.sound j).published_readVersion loaded).2 (now.symm.trans packed)
  · exact fun published ↦ absurd packed published.2

end System.Inv

/-! ## Steps keep the invariant -/

theorem recordAttr_published {typeIdentity : UInt64} {ic : AttrIC} :
    ∀ words ∈ recordAttr typeIdentity ic, Published words.version := by
  intro words mem
  unfold recordAttr at mem
  split_ifs at mem with refused
  · cases mem
  · obtain rfl := Option.some.inj mem
    exact ⟨fun h ↦ refused (.inr (.inl h)), fun h ↦ refused (.inr (.inr h))⟩

theorem recordGlobal_published {dictIdentity : UInt64} {ic : GlobalIC} :
    ∀ words ∈ recordGlobal dictIdentity ic, Published words.version := by
  intro words mem
  unfold recordGlobal at mem
  split_ifs at mem with refused
  · cases mem
  · obtain rfl := Option.some.inj mem
    exact ⟨fun h ↦ refused (.inr (.inl h)), fun h ↦ refused (.inr (.inr (.inl h)))⟩

theorem published_icCallPresent : Published icCallPresent := ⟨by decide, by decide⟩

theorem recordCall_published {calleeIdentity : UInt64} {result : Option IcWords} :
    ∀ words ∈ recordCall calleeIdentity result, Published words.version := by
  intro words mem
  cases result with
  | none =>
    obtain rfl := Option.some.inj mem
    exact published_icCallPresent
  | some old =>
    rw [recordCall] at mem
    split_ifs at mem
    · cases mem
    · obtain rfl := Option.some.inj mem
      exact published_icCallPresent

namespace System.Inv

variable {s : System} {i : ℕ} (inv : s.Inv)
include inv

theorem snapshotReturns (callee : Option UInt64) {result : Option IcWords}
    (snapshots : ∀ words ∈ result, words ∈ s.calls) :
    (s.take i (snapshotReturns s.cell callee result)).Inv := by
  refine inv.take_publish ?_ snapshots
  cases callee with
  | none => exact nofun
  | some callee => exact recordCall_published

theorem start (operation : Operation) : (s.take i (operation.start s.cell)).Inv := by
  cases operation with
  | consult => exact inv.take_same rfl rfl nofun nofun nofun
  | recordAttr typeIdentity ic => exact inv.take_publish recordAttr_published nofun
  | recordGlobal dictIdentity ic => exact inv.take_publish recordGlobal_published nofun
  | recordCall calleeIdentity =>
    rw [Operation.start]
    split_ifs
    · exact inv.take_same rfl rfl trivial nofun nofun
    · exact inv.take_same rfl rfl nofun nofun nofun

/-- A load of a snapshot: it stays up to date as long as the cell has its version, and what it returns
is what the cell held. -/
theorem read {callee : Option UInt64} {reader : Reader}
    (here : s.threads i = .reading callee reader) :
    (s.take i (reader.advance s.cell callee)).Inv := by
  have sound := inv.sound i
  rw [here] at sound
  cases reader with
  | packed =>
    rw [Reader.advance]
    split_ifs with empty
    · exact inv.snapshotReturns callee nofun
    · refine inv.take_same rfl rfl ?_ nofun nofun
      rintro version ⟨⟩
      exact ⟨not_or.mp empty, fun _ ↦ trivial⟩
  | aux version =>
    refine inv.take_same rfl rfl ?_ nofun nofun
    rintro _ ⟨⟩
    exact ⟨(sound version rfl).1, fun _ ↦ rfl⟩
  | payload version aux' =>
    refine inv.take_same rfl rfl ?_ nofun nofun
    rintro _ ⟨⟩
    obtain ⟨published, current⟩ := sound version rfl
    exact ⟨published, fun same ↦ ⟨current same, rfl⟩⟩
  | identity version aux' payload' =>
    refine inv.take_same rfl rfl ?_ nofun nofun
    rintro _ ⟨⟩
    obtain ⟨published, current⟩ := sound version rfl
    exact ⟨published, fun same ↦ ⟨(current same).1, (current same).2, rfl⟩⟩
  | extra version aux' payload' identity' =>
    refine inv.take_same rfl rfl ?_ nofun nofun
    rintro _ ⟨⟩
    obtain ⟨published, current⟩ := sound version rfl
    exact ⟨published, fun same ↦ ⟨(current same).1, (current same).2.1, (current same).2.2, rfl⟩⟩
  | recheck words =>
    refine inv.snapshotReturns callee fun result mem ↦ ?_
    split_ifs at mem with same
    · obtain rfl := Option.some.inj mem
      obtain ⟨published, current⟩ := sound words.version rfl
      obtain ⟨aux', payload', identity', extra'⟩ := current same
      have whole : s.cell.words = words := by
        obtain ⟨version, _, _, _, _⟩ := words
        simp only [FeedbackCell.words, IcWords.mk.injEq]
        exact ⟨same, aux', payload', identity', extra'⟩
      rw [← whole]
      exact inv.published (same ▸ published)
    · cases mem

/-- A step of a thread. The only one that needs the condition puts a version into the cell. -/
theorem advance (guard : s.PutsNoReadVersion (.advance i)) :
    (s.take i ((s.threads i).advance s.cell)).Inv := by
  have sound := inv.sound i
  cases here : s.threads i with
  | idle => exact inv.take_same rfl rfl trivial nofun nofun
  | reading callee reader => exact inv.read here
  | observe words =>
    rw [here] at sound
    rw [Thread.advance]
    split_ifs with writing
    · exact inv.take_same rfl rfl trivial nofun nofun
    · exact inv.take_same rfl rfl ⟨List.mem_append_left _ sound, writing⟩ nofun nofun
  | claim words observed =>
    rw [here] at sound
    rw [Thread.advance]
    split_ifs with same
    · have free (j : ℕ) : (s.threads j).claimed = false := by
        by_contra claimed
        have packed := (inv.sound j).packed_of_claimed (eq_true_of_ne_false claimed)
        exact sound.2 (same.symm.trans packed)
      have sub : s.calls ⊆ s.calls ++ [] := List.subset_append_left _ _
      refine inv.take ⟨sub sound.1, rfl⟩ (fun j _ ↦ ?_) (fun _ j _ ↦ free j) ?_ nofun nofun
      · refine (inv.sound j).elsewhere sub (free j) fun version loaded now ↦ ?_
        exact ((inv.sound j).published_readVersion loaded).2 now.symm
      · exact fun published ↦ absurd rfl published.2
    · exact inv.take_same rfl rfl trivial nofun nofun
  | storeAux words =>
    rw [here] at sound
    obtain ⟨called, packed⟩ := sound
    exact inv.take_store (by rw [here]; rfl) packed ⟨called, packed, rfl⟩
  | storePayload words =>
    rw [here] at sound
    obtain ⟨called, packed, aux'⟩ := sound
    exact inv.take_store (by rw [here]; rfl) packed ⟨called, packed, aux', rfl⟩
  | storeIdentity words =>
    rw [here] at sound
    obtain ⟨called, packed, aux', payload'⟩ := sound
    exact inv.take_store (by rw [here]; rfl) packed ⟨called, packed, aux', payload', rfl⟩
  | storeExtra words =>
    rw [here] at sound
    obtain ⟨called, packed, aux', payload', identity'⟩ := sound
    exact inv.take_store (by rw [here]; rfl) packed ⟨called, packed, aux', payload', identity', rfl⟩
  | storePacked words =>
    rw [here] at sound
    obtain ⟨called, packed, aux', payload', identity', extra'⟩ := sound
    have others (j : ℕ) (other : j ≠ i) : (s.threads j).claimed = false := by
      by_contra claimed
      refine other (inv.exclusive j i (eq_true_of_ne_false claimed) ?_)
      rw [here]
      rfl
    have sub : s.calls ⊆ s.calls ++ [] := List.subset_append_left _ _
    refine inv.take trivial (fun j other ↦ ?_) (fun h ↦ nomatch h) (fun _ ↦ sub ?_) nofun nofun
    · refine (inv.sound j).elsewhere sub (others j other) fun version loaded now ↦ ?_
      exact guard words here j (loaded.trans (congrArg some now.symm))
    · have whole : FeedbackCell.words { s.cell with packed := words.version } = words := by
        simp only [FeedbackCell.words, aux', payload', identity', extra']
      rw [Thread.advance, whole]
      exact called

theorem step {label : Label} (guard : s.PutsNoReadVersion label) {s' : System}
    (run : s.step label = some s') : s'.Inv := by
  cases label with
  | start i operation =>
    simp only [System.step] at run
    split at run
    · cases run
      exact inv.start operation
    · cases run
  | advance i =>
    cases run
    exact inv.advance guard

end System.Inv

theorem inv_init : System.Inv {} where
  sound _ := trivial
  exclusive _ _ h := nomatch h
  published h := absurd rfl h.1
  versions _ h := absurd h List.not_mem_nil
  snapshots _ h := absurd h List.not_mem_nil

/-! ## Snapshots -/

/-- In every run in which no publication puts a version into the cell that a snapshot in progress has
loaded, every record that a snapshot returns is that of one call of `ic_publish`. -/
theorem snapshot_of_one_publication {s : System}
    (reached : Reachable System.PutsNoReadVersion s) : ∀ words ∈ s.snapshots, words ∈ s.calls := by
  have inv : s.Inv := by
    refine Transition.Reachable.invariant System.Inv ?_ ?_ reached
    · rintro _ rfl
      exact inv_init
    · exact fun s label s' inv guard run ↦ inv.step guard run
  exact inv.snapshots

/-! ## Computed runs -/

def Label.thread : Label → ℕ
  | .start i _ | .advance i => i

/-- The condition, computed for runs of the threads below `n`. -/
def putsNoReadVersion (n : ℕ) (s : System) (label : Label) : Bool :=
  decide (label.thread < n) &&
    match label with
    | .start _ _ => true
    | .advance i =>
      match s.threads i with
      | .storePacked words =>
        (List.range n).all fun j ↦ (s.threads j).readVersion != some words.version
      | _ => true

theorem putsNoReadVersion_sound {n : ℕ} {s : System} (rest : ∀ j, n ≤ j → s.threads j = .idle)
    {label : Label} (check : putsNoReadVersion n s label = true) : s.PutsNoReadVersion label := by
  cases label with
  | start i operation => trivial
  | advance i =>
    intro words here j loaded
    simp only [putsNoReadVersion, here, Bool.and_eq_true, List.all_eq_true, List.mem_range,
      bne_iff_ne] at check
    by_cases inside : j < n
    · exact check.2 j inside loaded
    · rw [rest j (Nat.le_of_not_lt inside)] at loaded
      cases loaded

theorem reachable_of_labels {n : ℕ} {labels : List Label} {s : System}
    (run : Transition.runLabels (putsNoReadVersion n) System.step {} labels = some s) :
    Reachable System.PutsNoReadVersion s := by
  refine (Transition.runLabels_invariant (fun s ↦ Reachable System.PutsNoReadVersion s ∧
    ∀ j, n ≤ j → s.threads j = .idle) ?_ ⟨.start rfl, fun _ _ ↦ rfl⟩ run).1
  rintro s label s' ⟨reached, rest⟩ check step
  refine ⟨reached.next (putsNoReadVersion_sound rest check) step, fun j far ↦ ?_⟩
  have bound : label.thread < n := by
    simp only [putsNoReadVersion, Bool.and_eq_true, decide_eq_true_eq] at check
    exact check.1
  have other : j ≠ label.thread := Nat.ne_of_gt (Nat.lt_of_lt_of_le bound far)
  cases label with
  | start i operation =>
    simp only [System.step] at step
    split at step
    · cases step
      exact (Function.update_of_ne other ..).trans (rest j far)
    · cases step
  | advance i =>
    cases step
    exact (Function.update_of_ne other ..).trans (rest j far)

/-- The publication of an attribute record, from its start to its end. -/
def publishLabels (thread : ℕ) (identity : UInt64) (ic : AttrIC) : List Label :=
  .start thread (.recordAttr identity ic) :: List.replicate 7 (.advance thread)

/-- A record is published, a snapshot starts, another record is published by a second thread, and the
snapshot goes on. -/
def republishLabels (second : AttrIC) : List Label :=
  publishLabels 0 0x1000 ⟨1, .dictOffset, 0, 0⟩ ++
    (.start 1 .consult :: List.replicate 3 (.advance 1)) ++
    publishLabels 2 0x2000 second ++ List.replicate 3 (.advance 1)

/-- A class with a version of its own is noticed, and the next snapshot returns its record. -/
theorem snapshot_of_one_publication_republished :
    ∃ s, Reachable System.PutsNoReadVersion s ∧
      s.snapshots = [⟨5, 0, 0x300000001, 0x2000, 0x3000⟩] ∧ ∀ words ∈ s.snapshots, words ∈ s.calls := by
  obtain ⟨s, run, snapshots⟩ := Option.map_eq_some_iff.mp
    (show (Transition.runLabels (putsNoReadVersion 3) System.step {}
      (republishLabels ⟨5, .descriptor, 1, 0x3000⟩ ++
        (.start 1 .consult :: List.replicate 6 (.advance 1)))).map (·.snapshots) =
        some [⟨5, 0, 0x300000001, 0x2000, 0x3000⟩] by decide)
  have reached := reachable_of_labels run
  exact ⟨s, reached, snapshots, snapshot_of_one_publication reached⟩

/-- Two classes with the same version: a snapshot that has loaded the payload of the first record goes
on to load the identity and the descriptor of the second. -/
theorem torn_snapshot :
    ∃ s, Reachable (fun _ _ ↦ True) s ∧
      s.calls = [⟨1, 0, 0x200000000, 0x1000, 0⟩, ⟨1, 0, 0x300000001, 0x2000, 0x3000⟩] ∧
      s.snapshots = [⟨1, 0, 0x200000000, 0x2000, 0x3000⟩] := by
  obtain ⟨s, run, result⟩ := Option.map_eq_some_iff.mp
    (show (Transition.runLabels (fun _ _ ↦ true) System.step {}
      (republishLabels ⟨1, .descriptor, 1, 0x3000⟩)).map (fun s ↦ (s.calls, s.snapshots)) =
        some ([⟨1, 0, 0x200000000, 0x1000, 0⟩, ⟨1, 0, 0x300000001, 0x2000, 0x3000⟩],
          [⟨1, 0, 0x200000000, 0x2000, 0x3000⟩]) by decide)
  refine ⟨s, ?_, congrArg Prod.fst result, congrArg Prod.snd result⟩
  exact Transition.Reachable.runLabels (fun _ _ _ ↦ trivial) (.start rfl) run

end Pon.Feedback
