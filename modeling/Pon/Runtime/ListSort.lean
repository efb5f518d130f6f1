import Mathlib.Data.List.Perm.Basic
import Mathlib.Order.Basic
import Pon.Lib.Effect
import Pon.Lib.MergeSort

/-!
# `list.sort` and `sorted`

The items are copied out, the key function is called once for each of them, and their indices are
merge sorted by comparisons of the keys. Key calls and comparisons run user code, which may fail and
may change anything, the list under sort included.
-/

namespace Pon.Sort

open Effect MergeSort

/-- `RICH_LT` and `RICH_GT`. -/
inductive CompareOp
  | lt
  | gt

/-- Why a sort has no result: a call raised, the list had another length at write-back, or an index
was out of range. -/
inductive Fault (ε : Type)
  | raised (error : ε)
  | modified
  | panicked

/-- The calls of user code. -/
inductive Call (ω : Type)
  | key (function item : ω)
  | compare (op : CompareOp) (left right : ω)

/-- The user code, acting on a state that holds the cells of the list. -/
structure Interpreter (σ ω ε : Type) where
  call : ω → ω → σ → Except ε ω × σ
  richBool : CompareOp → ω → ω → σ → Except ε Bool × σ
  cells : σ → List ω
  setCells : List ω → σ → σ
  cells_setCells : ∀ items state, cells (setCells items state) = items

variable {σ ω ε β : Type} (interp : Interpreter σ ω ε)

abbrev SortM (σ ω ε α : Type) := Op σ (Call ω) (Fault ε) α

/-- An answer of user code; it may raise. -/
def raising (action : σ → Except ε β × σ) : σ → Except (Fault ε) β × σ := fun state ↦
  ((action state).1.mapError .raised, (action state).2)

def keyValue (key : Option ω) (item : ω) : SortM σ ω ε ω :=
  match key with
  | none => pure item
  | some function => perform (.key function item) (raising (interp.call function item))

def richBool (op : CompareOp) (left right : ω) : SortM σ ω ε Bool :=
  perform (.compare op left right) (raising (interp.richBool op left right))

/-- The items with their keys. -/
def keyItems (key : Option ω) : List ω → SortM σ ω ε (List (ω × ω))
  | [] => pure []
  | item :: rest => do
    let value ← keyValue interp key item
    let keyed ← keyItems key rest
    pure ((item, value) :: keyed)

/-- `items[index]`. -/
def get (items : List β) (index : ℕ) : Except (Fault ε) β :=
  match items[index]? with
  | some item => .ok item
  | none => .error .panicked

/-- `scratch[out] = index`. -/
def put (scratch : List ℕ) (out index : ℕ) : Except (Fault ε) (List ℕ) :=
  if out < scratch.length then .ok (scratch.set out index) else .error .panicked

/-- `dest[start..stop].copy_from_slice(&source[first..last])`. -/
def copyFromSlice (dest : List ℕ) (start stop : ℕ) (source : List ℕ) (first last : ℕ) :
    Except (Fault ε) (List ℕ) :=
  if start ≤ stop ∧ stop ≤ dest.length ∧ first ≤ last ∧ last ≤ source.length ∧
      stop - start = last - first then
    .ok (dest.take start ++ ((source.take last).drop first ++ dest.drop stop))
  else .error .panicked

/-- The comparison of two indices by their keys. -/
def compareKeyed (keyed : List (ω × ω)) (reverse : Bool) (left right : ℕ) : SortM σ ω ε Ordering := do
  let left ← settled (get keyed left)
  let right ← settled (get keyed right)
  let ordered ← richBool interp (if reverse then .gt else .lt) left.2 right.2
  pure (if ordered then .lt else .eq)

section Merge

variable (compare : ℕ → ℕ → SortM σ ω ε Ordering)

/-- The loop that merges `indices[left..mid]` and `indices[right..stop]` into `scratch[out..]`. -/
def mergeLoop (indices : List ℕ) (mid stop left right out : ℕ) (scratch : List ℕ) :
    SortM σ ω ε (ℕ × ℕ × ℕ × List ℕ) :=
  if left < mid ∧ right < stop then do
    let later ← settled (get indices right)
    let earlier ← settled (get indices left)
    let ordering ← compare later earlier
    if ordering.isLT then do
      let scratch ← settled (put scratch out later)
      mergeLoop indices mid stop left (right + 1) (out + 1) scratch
    else do
      let scratch ← settled (put scratch out earlier)
      mergeLoop indices mid stop (left + 1) right (out + 1) scratch
  else pure (left, right, out, scratch)
termination_by (mid - left) + (stop - right)

/-- What the loop has left over in one of the ranges is copied behind the output. -/
def copyRest (indices : List ℕ) (index stop out : ℕ) (scratch : List ℕ) :
    Except (Fault ε) (ℕ × List ℕ) :=
  if index < stop then do
    let scratch ← copyFromSlice scratch out (out + (stop - index)) indices index stop
    pure (out + (stop - index), scratch)
  else pure (out, scratch)

def stableMergeSortRange (indices scratch : List ℕ) (start stop : ℕ) :
    SortM σ ω ε (List ℕ × List ℕ) :=
  if stop - start ≤ 1 then pure (indices, scratch)
  else do
    let mid := start + (stop - start) / 2
    let (indices, scratch) ← stableMergeSortRange indices scratch start mid
    let (indices, scratch) ← stableMergeSortRange indices scratch mid stop
    let (left, right, out, scratch) ← mergeLoop compare indices mid stop start mid start scratch
    let (out, scratch) ← settled (copyRest indices left mid out scratch)
    let (_, scratch) ← settled (copyRest indices right stop out scratch)
    let indices ← settled (copyFromSlice indices start stop scratch start stop)
    pure (indices, scratch)
termination_by stop - start

def stableMergeSortIndices (indices scratch : List ℕ) : SortM σ ω ε (List ℕ × List ℕ) :=
  stableMergeSortRange compare indices scratch 0 indices.length

end Merge

/-- The items in the order of the indices. -/
def placeItems (keyed : List (ω × ω)) (indices : List ℕ) : Except (Fault ε) (List ω) :=
  indices.mapM fun index ↦ (get keyed index).map Prod.fst

def stableSort (items : List ω) (key : Option ω) (reverse : Bool) : SortM σ ω ε (List ω) := do
  let keyed ← keyItems interp key items
  let (indices, _) ← stableMergeSortIndices (compareKeyed interp keyed reverse)
    (List.range keyed.length) (List.replicate keyed.length 0)
  settled (placeItems keyed indices)

/-- The sorted items go into the list if it still has their number. -/
def writeBack (items : List ω) : SortM σ ω ε Unit := fun state ↦
  if (interp.cells state).length ≠ items.length then settled (.error .modified) state
  else { result := .ok (), state := interp.setCells items state, log := [] }

def listSortWithOptions (key : Option ω) (reverse : Bool) : SortM σ ω ε Unit := do
  let items ← query fun state ↦ .ok (interp.cells state)
  let sorted ← stableSort interp items key reverse
  writeBack interp sorted

/-! ## Ranges -/

/-- The list is what the range from the index to the stop holds. -/
structure Remaining (indices : List ℕ) (stop index : ℕ) (xs : List ℕ) : Prop where
  held : xs <+: indices.drop index
  length : index + xs.length = stop

variable {indices xs ys written rest source piece : List ℕ} {x mid stop left right index room : ℕ}

theorem Remaining.head (h : Remaining indices stop index (x :: xs)) :
    get indices index = (.ok x : Except (Fault ε) ℕ) ∧ Remaining indices stop (index + 1) xs ∧ index < stop := by
  obtain ⟨⟨after, held⟩, length⟩ := h
  have at? : indices[index]? = some x := by
    rw [← List.head?_drop, ← held]
    rfl
  refine ⟨?_, ⟨⟨after, ?_⟩, ?_⟩, ?_⟩
  · rw [get, at?]
  · rw [← List.tail_drop, ← held]
    rfl
  · rw [List.length_cons] at length
    omega
  · rw [List.length_cons] at length
    omega

theorem Remaining.mk_append (front : List ℕ) (xs back : List ℕ) :
    Remaining (front ++ (xs ++ back)) (front.length + xs.length) front.length xs :=
  ⟨⟨back, by rw [List.drop_left]⟩, rfl⟩

theorem put_append (written rest : List ℕ) (old value : ℕ) :
    put (written ++ old :: rest) written.length value =
      (.ok (written ++ [value] ++ rest) : Except (Fault ε) (List ℕ)) := by
  rw [put, if_pos (by simp)]
  simp

theorem copyFromSlice_eq (written rest : List ℕ) (h : Remaining source stop index piece) (inside : stop ≤ source.length)
    (fits : piece.length ≤ rest.length) :
    copyFromSlice (written ++ rest) written.length (written.length + (stop - index)) source index stop =
      (.ok (written ++ piece ++ rest.drop piece.length) : Except (Fault ε) (List ℕ)) := by
  obtain ⟨⟨after, held⟩, rfl⟩ := h
  have taken : (source.take (index + piece.length)).drop index = piece := by
    rw [List.drop_take, ← held]
    simp
  rw [Nat.add_sub_cancel_left, copyFromSlice, taken, if_pos]
  · simp
  · rw [List.length_append]
    omega

theorem copyRest_eq (h : Remaining indices stop index piece) (inside : stop ≤ indices.length)
    (fits : piece.length ≤ rest.length) :
    copyRest indices index stop written.length (written ++ rest) =
      (.ok ((written ++ piece).length, written ++ piece ++ rest.drop piece.length) :
        Except (Fault ε) (ℕ × List ℕ)) := by
  have length := h.length
  rw [copyRest]
  split_ifs with more
  · rw [copyFromSlice_eq written rest h inside fits]
    simp only [bind, Except.bind, pure, Except.pure, List.length_append]
    rw [← length, Nat.add_sub_cancel_left]
  · have empty : piece = [] := List.length_eq_zero_iff.mp (by omega)
    subst empty
    simp [pure, Except.pure]

/-! ## Merging -/

section Meets

variable {step : Call ω → σ → σ → Prop} {kind : Call ω → Prop} {failure : Fault ε → Prop}
  {answer : ℕ → ℕ → Bool → Prop} {positions : List ℕ} {compare : ℕ → ℕ → SortM σ ω ε Ordering}

/-- The loop has merged some of the elements, and what is left over completes a merge. -/
def LoopEnd (answer : ℕ → ℕ → Bool → Prop) (indices : List ℕ) (mid stop : ℕ)
    (written xs ys : List ℕ) (room : ℕ) (state : ℕ × ℕ × ℕ × List ℕ) : Prop :=
  ∃ taken xs' ys' rest left right,
    state = (left, right, (written ++ taken).length, written ++ taken ++ rest) ∧
      Remaining indices mid left xs' ∧ Remaining indices stop right ys' ∧
      Merges answer xs ys (taken ++ (xs' ++ ys')) ∧ taken.length + rest.length = room

theorem LoopEnd.grow {xs' ys' : List ℕ} {state : ℕ × ℕ × ℕ × List ℕ}
    (h : LoopEnd answer indices mid stop (written ++ [x]) xs' ys' room state)
    (grow : ∀ zs, Merges answer xs' ys' zs → Merges answer xs ys (x :: zs)) :
    LoopEnd answer indices mid stop written xs ys (room + 1) state := by
  obtain ⟨taken, xs', ys', rest, left, right, rfl, first, second, merged, length⟩ := h
  refine ⟨x :: taken, xs', ys', rest, left, right, ?_, first, second, grow _ merged, ?_⟩
  · simp
  · rw [List.length_cons]
    omega

theorem mergeLoop_meets (compares : ∀ i ∈ positions, ∀ j ∈ positions,
      Meets step kind failure (fun ordering ↦ answer i j ordering.isLT) (compare i j)) :
    ∀ {xs ys : List ℕ} {left right : ℕ} (written rest : List ℕ),
      Remaining indices mid left xs → Remaining indices stop right ys →
      (∀ i ∈ xs ++ ys, i ∈ positions) → xs.length + ys.length ≤ rest.length →
      Meets step kind failure (LoopEnd answer indices mid stop written xs ys rest.length)
        (mergeLoop compare indices mid stop left right written.length (written ++ rest))
  | [], ys, left, right, written, rest, first, second, _, _ => by
    have length := first.length
    rw [mergeLoop, if_neg (by simp at length; omega)]
    exact .pure ⟨[], [], ys, rest, left, right, by simp, first, second, .right ys, by simp⟩
  | x :: xs, [], left, right, written, rest, first, second, _, _ => by
    have length := second.length
    rw [mergeLoop, if_neg (by simp at length; omega)]
    exact .pure ⟨[], x :: xs, [], rest, left, right, by simp, first, second, .of_nil (.inr rfl), by simp⟩
  | x :: xs, y :: ys, left, right, written, [], _, _, _, fits => by simp at fits
  | x :: xs, y :: ys, left, right, written, old :: rest, first, second, subset, fits => by
    obtain ⟨earlier, first', moreLeft⟩ := first.head (ε := ε)
    obtain ⟨later, second', moreRight⟩ := second.head (ε := ε)
    simp only [List.length_cons] at fits ⊢
    rw [mergeLoop, if_pos ⟨moreLeft, moreRight⟩]
    rw [settled_bind_eq later, settled_bind_eq earlier]
    refine (compares y (subset y (by simp)) x (subset x (by simp))).bind fun ordering answered ↦ ?_
    have written_one (value : ℕ) : written.length + 1 = (written ++ [value]).length := by simp
    split_ifs with isLess
    · rw [settled_bind_eq (put_append written rest old y), written_one y]
      exact (mergeLoop_meets compares _ _ first second' (fun i mem ↦ subset i (by
        simp only [List.mem_append, List.mem_cons] at mem ⊢; tauto)) (by simp; omega)).mono
        fun _ done ↦ done.grow fun _ ↦ .takeRight (isLess ▸ answered)
    · rw [settled_bind_eq (put_append written rest old x), written_one x]
      exact (mergeLoop_meets compares _ _ first' second (fun i mem ↦ subset i (by
        simp only [List.mem_append, List.mem_cons] at mem ⊢; tauto)) (by simp; omega)).mono
        fun _ done ↦ done.grow fun _ ↦ .takeLeft (by simpa [isLess] using answered)
termination_by xs ys => xs.length + ys.length

theorem stableMergeSortRange_meets (compares : ∀ i ∈ positions, ∀ j ∈ positions,
      Meets step kind failure (fun ordering ↦ answer i j ordering.isLT) (compare i j))
    (front xs back scratch : List ℕ) (subset : ∀ i ∈ xs, i ∈ positions)
    (fits : front.length + xs.length ≤ scratch.length) :
    Meets step kind failure (fun out ↦ ∃ xs', out.1 = front ++ (xs' ++ back) ∧ Sorts answer xs xs' ∧
        out.2.length = scratch.length)
      (stableMergeSortRange compare (front ++ (xs ++ back)) scratch front.length
        (front.length + xs.length)) := by
  induction count : xs.length using Nat.strongRecOn generalizing front xs back scratch with
  | _ n ih => ?_
  subst count
  rw [stableMergeSortRange]
  split_ifs with short
  · exact .pure ⟨xs, rfl, .short (by omega), rfl⟩
  rw [Nat.add_sub_cancel_left] at short ⊢
  obtain ⟨ys, zs, rfl, half⟩ : ∃ ys zs, xs = ys ++ zs ∧ xs.length / 2 = ys.length :=
    ⟨xs.take (xs.length / 2), xs.drop (xs.length / 2), by simp, by simp; omega⟩
  have lengths : (ys ++ zs).length = ys.length + zs.length := List.length_append
  rw [half]
  simp only [List.append_assoc]
  refine (ih ys.length (by omega) front ys (zs ++ back) scratch
    (fun i mem ↦ subset i (List.mem_append_left _ mem)) (by omega) rfl).bind fun ⟨_, scratch₁⟩ first ↦ ?_
  obtain ⟨ys', rfl, sorted, room⟩ := first
  change scratch₁.length = scratch.length at room
  have length' : ys'.length = ys.length := sorted.perm.length_eq
  have next := ih zs.length (by omega) (front ++ ys') zs back scratch₁
    (fun i mem ↦ subset i (List.mem_append_right _ mem)) (by rw [List.length_append]; omega) rfl
  simp only [List.append_assoc, List.length_append, length', Nat.add_assoc] at next
  rw [lengths]
  refine next.bind fun ⟨_, scratch₂⟩ second ↦ ?_
  obtain ⟨zs', rfl, sorted', room'⟩ := second
  change scratch₂.length = scratch₁.length at room'
  have length'' : zs'.length = zs.length := sorted'.perm.length_eq
  obtain ⟨written, rest, rfl, size⟩ : ∃ written rest, scratch₂ = written ++ rest ∧
      front.length = written.length :=
    ⟨scratch₂.take front.length, scratch₂.drop front.length, by simp, by simp; omega⟩
  have total : (written ++ rest).length = written.length + rest.length := List.length_append
  have atLeft := Remaining.mk_append front ys' (zs' ++ back)
  have atRight := Remaining.mk_append (front ++ ys') zs' back
  simp only [List.append_assoc, List.length_append, length', length'', Nat.add_assoc] at atLeft atRight
  have loop := mergeLoop_meets compares written rest atLeft atRight (fun i mem ↦ subset i ?_) (by omega)
  · rw [← size] at loop
    refine loop.bind fun ⟨left, right, out, scratch₃⟩ ended ↦ ?_
    obtain ⟨taken, xs', ys'', rest', left, right, same, first, second, merged, used⟩ := ended
    cases same
    have isIndices : (front ++ (ys' ++ (zs' ++ back))).length =
        front.length + (ys.length + (zs.length + back.length)) := by
      simp [length', length'']
    have counted := merged.perm.length_eq
    simp only [List.length_append] at counted
    dsimp only
    rw [settled_bind_eq (copyRest_eq (ε := ε) first (by omega) (by omega)),
      settled_bind_eq (copyRest_eq (ε := ε) second (by omega) (by rw [List.length_drop]; omega))]
    have unusedLength : ((rest'.drop xs'.length).drop ys''.length).length =
        rest'.length - xs'.length - ys''.length := by
      rw [List.length_drop, List.length_drop]
    generalize (rest'.drop xs'.length).drop ys''.length = unused at unusedLength ⊢
    have output : Remaining (written ++ taken ++ xs' ++ ys'' ++ unused)
        (front.length + (ys.length + zs.length)) front.length (taken ++ (xs' ++ ys'')) :=
      ⟨⟨unused, by rw [size]; simp⟩, by simp only [List.length_append]; omega⟩
    have copied := copyFromSlice_eq (ε := ε) front (ys' ++ (zs' ++ back)) output
      (by simp only [List.length_append]; omega)
      (by simp only [List.length_append]; omega)
    have replaced : (ys' ++ (zs' ++ back)).drop (taken ++ (xs' ++ ys'')).length = back := by
      rw [merged.perm.length_eq, ← List.append_assoc, List.drop_left]
    rw [Nat.add_sub_cancel_left, replaced, List.append_assoc front] at copied
    dsimp only
    rw [settled_bind_eq copied]
    refine .pure ⟨taken ++ (xs' ++ ys''), rfl, .merge sorted sorted' merged, ?_⟩
    simp only [List.length_append]
    omega
  · exact (sorted.perm.append sorted'.perm).mem_iff.mp mem

end Meets

/-! ## Sorting -/

section

variable {items keys : List ω} {keyed : List (ω × ω)} {key : Option ω} {op : CompareOp}
  {kind : Call ω → Prop} {state : σ}

/-- What a call of user code does to the state. -/
def Step (interp : Interpreter σ ω ε) : Call ω → σ → σ → Prop
  | .key function item, before, after => after = (interp.call function item before).2
  | .compare op left right, before, after => after = (interp.richBool op left right before).2

def Call.IsCompare : Call ω → Prop
  | .key .. => False
  | .compare .. => True

def Fault.IsRaised (fault : Fault ε) : Prop := ∃ error, fault = .raised error

/-- The calls of the key function, once for each item in order. -/
def keyCalls : Option ω → List ω → List (Call ω)
  | none, _ => []
  | some function, items => items.map (.key function)

/-- Whenever the comparison of two of the keys answers, it follows the relation. -/
def Decides (interp : Interpreter σ ω ε) (op : CompareOp) (r : ω → ω → Prop) (keys : List ω) : Prop :=
  ∀ a ∈ keys, ∀ b ∈ keys, ∀ state answer,
    (interp.richBool op a b state).1 = .ok answer → (answer = true ↔ r a b)

/-- The relation of the keys at two positions. -/
def AtKeys (r : ω → ω → Prop) (keys : List ω) (i j : ℕ) : Prop :=
  ∃ a b, keys[i]? = some a ∧ keys[j]? = some b ∧ r a b

/-- The result is a permutation. If the comparison is a strict weak order on the keys, it has the items
in the order of their keys, and those with equivalent keys in the order of their positions. -/
structure Sorted (interp : Interpreter σ ω ε) (op : CompareOp) (items keys sorted : List ω) : Prop where
  perm : sorted.Perm items
  ordered : ∀ r, StrictWeakOn r keys → Decides interp op r keys →
    ∃ order : List ℕ, order.Perm (List.range items.length) ∧ order.map (items[·]?) = sorted.map some ∧
      order.Pairwise (Before (AtKeys r keys))

theorem meets_perform (call : Call ω) (action : σ → Except ε β × σ) (isKind : kind call)
    (h : ∀ state, Step interp call state (action state).2) :
    Meets (Step interp) kind Fault.IsRaised (fun b ↦ ∃ state, (action state).1 = .ok b)
      (perform call (raising action)) where
  traced := .perform h
  emits _ _ mem := List.mem_singleton.mp mem ▸ isKind
  ok state b same := by
    change (action state).1.mapError Fault.raised = .ok b at same
    cases answer : (action state).1 with
    | error => rw [answer] at same; cases same
    | ok => rw [answer] at same; cases same; exact ⟨state, answer⟩
  error state fault same := by
    change (action state).1.mapError Fault.raised = .error fault at same
    cases answer : (action state).1 with
    | error e => rw [answer] at same; cases same; exact ⟨e, rfl⟩
    | ok => rw [answer] at same; cases same

theorem keyItems_meets (key : Option ω) : ∀ items : List ω,
    Meets (Step interp) (fun _ ↦ True) Fault.IsRaised (fun keyed ↦ keyed.map Prod.fst = items)
      (keyItems interp key items)
  | [] => .pure rfl
  | item :: rest => by
    have first : Meets (Step interp) (fun _ ↦ True) Fault.IsRaised (fun _ ↦ True)
        (keyValue interp key item) := by
      cases key with
      | none => exact .pure trivial
      | some function =>
        exact (meets_perform interp (.key function item) (interp.call function item) trivial
          fun _ ↦ rfl).mono fun _ _ ↦ trivial
    exact first.bind fun value _ ↦ (keyItems_meets key rest).bind fun keyed same ↦
      .pure (congrArg (item :: ·) same)

theorem log_keyItems (h : (keyItems interp key items state).result = .ok keyed) :
    (keyItems interp key items state).log = keyCalls key items := by
  induction items generalizing keyed state with
  | nil => cases key <;> rfl
  | cons item rest ih =>
    obtain ⟨value, first, h⟩ := of_bind_ok h
    obtain ⟨others, second, -⟩ := of_bind_ok h
    rw [keyItems, bind_ok first, bind_ok second, ih second]
    cases key with
    | none => rfl
    | some function => exact congrArg (Call.key function item :: ·) (List.append_nil _)

/-- What the comparison of two indices can answer. -/
def Answers (interp : Interpreter σ ω ε) (op : CompareOp) (keyed : List (ω × ω)) (i j : ℕ)
    (answer : Bool) : Prop := ∃ left right state, keyed[i]? = some left ∧ keyed[j]? = some right ∧
    (interp.richBool op left.2 right.2 state).1 = .ok answer

theorem get_eq_ok {items : List β} {i : ℕ} (h : i ∈ List.range items.length) :
    ∃ item, items[i]? = some item ∧ get items i = (.ok item : Except (Fault ε) β) :=
  have inside := List.mem_range.mp h
  ⟨items[i], List.getElem?_eq_getElem inside, by rw [get, List.getElem?_eq_getElem inside]⟩

theorem compareKeyed_meets (reverse : Bool) {i j : ℕ} (hi : i ∈ List.range keyed.length)
    (hj : j ∈ List.range keyed.length) :
    Meets (Step interp) Call.IsCompare Fault.IsRaised
      (fun ordering ↦ Answers interp (if reverse then .gt else .lt) keyed i j ordering.isLT)
      (compareKeyed interp keyed reverse i j) := by
  obtain ⟨left, atLeft, isLeft⟩ := get_eq_ok (ε := ε) hi
  obtain ⟨right, atRight, isRight⟩ := get_eq_ok (ε := ε) hj
  rw [compareKeyed, settled_bind_eq isLeft, settled_bind_eq isRight]
  refine (meets_perform interp (.compare _ left.2 right.2) _ trivial fun _ ↦ rfl).bind
    fun ordered ⟨state, answered⟩ ↦ .pure ?_
  refine ⟨left, right, state, atLeft, atRight, ?_⟩
  rw [answered]
  cases ordered <;> rfl

theorem placeItems_eq : ∀ {order : List ℕ}, (∀ i ∈ order, i ∈ List.range keyed.length) →
    ∃ sorted, placeItems keyed order = (.ok sorted : Except (Fault ε) (List ω)) ∧
      order.map ((keyed.map Prod.fst)[·]?) = sorted.map some
  | [], _ => ⟨[], rfl, rfl⟩
  | i :: order, inside => by
    obtain ⟨item, at?, isItem⟩ := get_eq_ok (ε := ε) (inside i List.mem_cons_self)
    obtain ⟨rest, placed, same⟩ := placeItems_eq fun j mem ↦ inside j (List.mem_cons_of_mem _ mem)
    refine ⟨item.1 :: rest, ?_, ?_⟩
    · rw [placeItems, List.mapM_cons, isItem]
      change (placeItems keyed order >>= fun items ↦ pure (item.1 :: items)) = _
      rw [placed]
      rfl
    · rw [List.map_cons, same, List.getElem?_map, at?]
      rfl

theorem strictWeakOn_atKeys {r : ω → ω → Prop} (h : StrictWeakOn r keys) (n : ℕ) (length : keys.length = n) :
    StrictWeakOn (AtKeys r keys) (List.range n) := by
  subst length
  refine ⟨fun i _ j _ ⟨a, b, atI, atJ, less⟩ ⟨b', a', atJ', atI', less'⟩ ↦ ?_,
    fun i _ j hj k _ ⟨a, c, atI, atK, less⟩ ↦ ?_⟩
  · obtain rfl := Option.some.inj (atI.symm.trans atI')
    obtain rfl := Option.some.inj (atJ.symm.trans atJ')
    exact h.asymm a (List.mem_of_getElem? atI) b (List.mem_of_getElem? atJ) less less'
  · obtain ⟨b, atJ, -⟩ := get_eq_ok (ε := Unit) hj
    refine (h.split a (List.mem_of_getElem? atI) b (List.mem_of_getElem? atJ) c
      (List.mem_of_getElem? atK) less).imp ?_ ?_
    · exact fun less ↦ ⟨a, b, atI, atJ, less⟩
    · exact fun less ↦ ⟨b, c, atJ, atK, less⟩

/-- Sorting the indices and placing the items sorts them. -/
theorem sorted_of_sorts {order : List ℕ} {sorted : List ω}
    (h : Sorts (Answers interp op keyed) (List.range keyed.length) order)
    (placed : order.map ((keyed.map Prod.fst)[·]?) = sorted.map some) :
    Sorted interp op (keyed.map Prod.fst) (keyed.map Prod.snd) sorted := by
  refine ⟨(List.map_perm_map_iff fun _ _ ↦ Option.some.inj).mp ?_, fun r weak decides ↦
    ⟨order, by simpa using h.perm, placed, ?_⟩⟩
  · have inOrder : (List.range keyed.length).map ((keyed.map Prod.fst)[·]?) = (keyed.map Prod.fst).map some := by
      refine List.ext_getElem (by simp) fun i inside _ ↦ ?_
      have inside : i < keyed.length := by simpa using inside
      simp [List.getElem?_eq_getElem inside]
    rw [← placed, ← inOrder]
    exact h.perm.map _
  · refine h.pairwise (fun i _ j _ answer ⟨left, right, state, atJ, atI, answered⟩ ↦ ?_)
      (strictWeakOn_atKeys weak keyed.length (List.length_map _)) (fun _ mem ↦ mem) List.pairwise_lt_range
    have keyI : (keyed.map Prod.snd)[i]? = some right.2 := by rw [List.getElem?_map, atI]; rfl
    have keyJ : (keyed.map Prod.snd)[j]? = some left.2 := by rw [List.getElem?_map, atJ]; rfl
    rw [decides left.2 (List.mem_of_getElem? keyJ) right.2 (List.mem_of_getElem? keyI) state answer answered]
    refine ⟨fun less ↦ ⟨left.2, right.2, keyJ, keyI, less⟩, fun ⟨a, b, atA, atB, less⟩ ↦ ?_⟩
    obtain rfl := Option.some.inj (keyJ.symm.trans atA)
    obtain rfl := Option.some.inj (keyI.symm.trans atB)
    exact less

/-- A run of the sort. Only user code changes the state, and the run fails only if a call raises. If it
succeeds, the key function has been called once for each item in order, and only comparisons follow. -/
structure SortRun (interp : Interpreter σ ω ε) (key : Option ω) (reverse : Bool) (items : List ω)
    (state : σ) (run : Outcome σ (Call ω) (Fault ε) (List ω)) : Prop where
  traced : Trace (Step interp) run.log state run.state
  failed : ∀ fault, run.result = .error fault → fault.IsRaised
  sorted : ∀ sorted, run.result = .ok sorted → ∃ keyed comparisons,
    (keyItems interp key items state).result = .ok keyed ∧ keyed.map Prod.fst = items ∧
      run.log = keyCalls key items ++ comparisons ∧ (∀ call ∈ comparisons, call.IsCompare) ∧
      Sorted interp (if reverse then .gt else .lt) items (keyed.map Prod.snd) sorted

theorem sortIndices_meets (reverse : Bool) (keyed : List (ω × ω)) :
    Meets (Step interp) Call.IsCompare Fault.IsRaised
      (Sorted interp (if reverse then .gt else .lt) (keyed.map Prod.fst) (keyed.map Prod.snd)) (do
        let (indices, _) ← stableMergeSortIndices (compareKeyed interp keyed reverse)
          (List.range keyed.length) (List.replicate keyed.length 0)
        settled (placeItems keyed indices)) := by
  have sorts := stableMergeSortRange_meets
    (fun i hi j hj ↦ compareKeyed_meets interp reverse hi hj) []
    (List.range keyed.length) [] (List.replicate keyed.length 0) (fun _ mem ↦ mem) (by simp)
  simp only [List.nil_append, List.append_nil, List.length_nil, Nat.zero_add] at sorts
  refine sorts.bind fun ⟨indices, scratch⟩ ⟨order, same, sorted, _⟩ ↦ ?_
  cases same
  obtain ⟨items, placed, atPlaces⟩ := placeItems_eq (ε := ε) fun i mem ↦ sorted.perm.mem_iff.mp mem
  change Meets _ _ _ _ (settled (placeItems keyed indices))
  rw [placed]
  exact .pure (sorted_of_sorts interp sorted atPlaces)

theorem sortRun (key : Option ω) (reverse : Bool) (items : List ω) (state : σ) :
    SortRun interp key reverse items state (stableSort interp items key reverse state) := by
  have first := keyItems_meets interp key items
  cases keyedItems : (keyItems interp key items state).result with
  | error fault =>
    rw [stableSort, bind_error keyedItems]
    refine ⟨first.traced state, fun _ same ↦ ?_, nofun⟩
    exact Except.error.inj same ▸ first.error state fault keyedItems
  | ok keyed =>
    have second := sortIndices_meets interp reverse keyed
    have isItems := first.ok state keyed keyedItems
    rw [stableSort, bind_ok keyedItems]
    refine ⟨(first.traced state).append (second.traced _), second.error _, fun sorted same ↦ ?_⟩
    refine ⟨keyed, _, keyedItems, isItems, congrArg (· ++ _) (log_keyItems interp keyedItems), second.emits _, ?_⟩
    exact isItems ▸ second.ok _ sorted same

/-- `sorted` and `list.sort` sort stably by the keys, with any user code. The list is written only when
the sort has succeeded and the list still has its length; it then holds the sorted items. -/
theorem list_sort_stable (interp : Interpreter σ ω ε) (key : Option ω) (reverse : Bool) (state : σ) :
    (∀ items, SortRun interp key reverse items state (stableSort interp items key reverse state)) ∧
      let run := stableSort interp (interp.cells state) key reverse state
      let outcome := listSortWithOptions interp key reverse state
      (∀ fault, outcome.result = .error fault → outcome.state = run.state ∧
        (fault.IsRaised ∨ fault = .modified ∧
          (interp.cells run.state).length ≠ (interp.cells state).length)) ∧
      (outcome.result = .ok () → run.result = .ok (interp.cells outcome.state) ∧
        (interp.cells run.state).length = (interp.cells state).length) := by
  have sortRuns (items : List ω) := sortRun interp key reverse items state
  refine ⟨sortRuns, ?_⟩
  have isRun := sortRuns (interp.cells state)
  have whole : listSortWithOptions interp key reverse state =
      (stableSort interp (interp.cells state) key reverse >>= writeBack interp) state :=
    (Quiet.query fun state ↦ .ok (interp.cells state)).bind_ok rfl _
  intro run outcome
  cases result : run.result with
  | error fault =>
    have failed : outcome = { result := .error fault, state := run.state, log := run.log } :=
      whole.trans (bind_error result _)
    rw [failed]
    refine ⟨fun _ same ↦ ⟨rfl, .inl ?_⟩, nofun⟩
    exact Except.error.inj same ▸ isRun.failed fault result
  | ok sorted =>
    have written := whole.trans (bind_ok result _)
    obtain ⟨_, _, -, -, -, -, permuted⟩ := isRun.sorted sorted result
    have length := permuted.perm.length_eq
    by_cases same : (interp.cells run.state).length = sorted.length
    · have kept : outcome = { result := .ok (), state := interp.setCells sorted run.state, log := run.log } := by
        refine written.trans ?_
        rw [writeBack, if_neg (not_not.mpr same), List.append_nil]
      rw [kept]
      refine ⟨nofun, fun _ ↦ ⟨?_, same.trans length⟩⟩
      rw [interp.cells_setCells]
    · have failed : outcome = { result := .error .modified, state := run.state, log := run.log } := by
        refine written.trans ?_
        rw [writeBack, if_pos same, settled, List.append_nil]
      rw [failed]
      refine ⟨fun _ isFault ↦ ⟨rfl, .inr ⟨(Except.error.inj isFault).symm, fun equal ↦ ?_⟩⟩, nofun⟩
      exact same (equal.trans length.symm)

end

/-- Numbers; a key function gives the last digit. -/
def digits : Interpreter (List ℕ) ℕ Empty where
  call _ item state := (.ok (item % 10), state)
  richBool op left right state :=
    (.ok (match op with
      | .lt => decide (left < right)
      | .gt => decide (right < left)), state)
  cells state := state
  setCells items _ := items
  cells_setCells _ _ := rfl

theorem list_sort_stable_digits :
    (stableSort digits [31, 12, 21] (some 0) true [31, 12, 21]).result = .ok [12, 31, 21] := by
  have sorted : (listSortWithOptions digits (some 0) true [31, 12, 21]).state = [12, 31, 21] := by
    decide +kernel
  have done : (listSortWithOptions digits (some 0) true [31, 12, 21]).result.isOk = true := by
    decide +kernel
  have stable := (list_sort_stable digits (some 0) true [31, 12, 21]).2.2
  rw [← sorted]
  cases run : (listSortWithOptions digits (some 0) true [31, 12, 21]).result with
  | error => simp [run, Except.isOk, Except.toBool] at done
  | ok => exact (stable run).1

end Pon.Sort
