import Mathlib.Data.Nat.Digits.Defs
import Mathlib.Tactic.Ring

/-!
# Mersenne twister

The state words are renewed in place, 624 at a time. An access outside an array is `none`.
-/

namespace Pon.Random

@[irreducible]
def N : ℕ := 624

def M : ℕ := 397

abbrev Word := BitVec 32

def matrixA : Word := 0x9908b0df

def upperMask : Word := 0x80000000

def lowerMask : Word := 0x7fffffff

abbrev Words := Vector Word N

structure Mt19937 where
  mt : Words
  mti : ℕ

inductive Raised where
  | valueError (message : String)
  | overflowError (message : String)

/-- Writes an entry. -/
def put (mt : Words) (index : ℕ) (word : Word) : Option Words :=
  if h : index < N then some (mt.set index word) else none

/-- A loop over the indices from `start`. -/
def forRange {S : Type} (start count : ℕ) (body : ℕ → S → Option S) (s : S) : Option S :=
  (List.range' start count).foldlM (fun s index ↦ body index s) s

def initGenrand (s : Word) (state : Mt19937) : Option Mt19937 := do
  let mt ← put state.mt 0 s
  let mt ← forRange 1 (N - 1) (fun i mt ↦ do
    let prev ← mt[i - 1]?
    put mt i (1812433253 * (prev ^^^ (prev >>> 30)) + BitVec.ofNat 32 i)) mt
  some { mt, mti := N }

/-- Mixes a word with the one before it, and goes on to the next. -/
def mixWord (factor addend : Word) (mt : Words) (i : ℕ) : Option (Words × ℕ) := do
  let prev ← if i = 0 then none else mt[i - 1]?
  let mt ← put mt i (((← mt[i]?) ^^^ (prev ^^^ (prev >>> 30)) * factor) + addend)
  if i + 1 ≥ N then do some (← put mt 0 (← mt[N - 1]?), 1) else some (mt, i + 1)

def initByArray (key : List Word) (state : Mt19937) : Option Mt19937 := do
  let state ← initGenrand 19650218 state
  let (mt, i, _) ← forRange 0 (max N key.length) (fun _ (mt, i, j) ↦ do
    let (mt, i) ← mixWord 1664525 ((← key[j]?) + BitVec.ofNat 32 j) mt i
    some (mt, i, if j + 1 ≥ key.length then 0 else j + 1)) (state.mt, 1, 0)
  let (mt, _) ← forRange 0 (N - 1)
    (fun _ (mt, i) ↦ mixWord 1566083941 (-BitVec.ofNat 32 i) mt i) (mt, i)
  some { mt := ← put mt 0 0x80000000, mti := state.mti }

def twist (upper lower : Word) : Word :=
  let y := (upper &&& upperMask) ||| (lower &&& lowerMask)
  (y >>> 1) ^^^ if y &&& 1 = 1 then matrixA else 0

def renew (kk next far : ℕ) (mt : Words) : Option Words := do
  put mt kk ((← mt[far]?) ^^^ twist (← mt[kk]?) (← mt[next]?))

def reload (mt : Words) : Option Words := do
  let mt ← forRange 0 (N - M) (fun kk ↦ renew kk (kk + 1) (kk + M)) mt
  let mt ← forRange (N - M) (M - 1) (fun kk ↦ renew kk (kk + 1) (kk + M - N)) mt
  renew (N - 1) 0 (M - 1) mt

def temper (y : Word) : Word :=
  let y := y ^^^ (y >>> 11)
  let y := y ^^^ ((y <<< 7) &&& 0x9d2c5680)
  let y := y ^^^ ((y <<< 15) &&& 0xefc60000)
  y ^^^ (y >>> 18)

def refill (state : Mt19937) : Option Mt19937 :=
  if state.mti ≥ N then do some { mt := ← reload state.mt, mti := 0 } else some state

def genrand (state : Mt19937) : Option (Word × Mt19937) := do
  let state ← refill state
  some (temper (← state.mt[state.mti]?), { state with mti := state.mti + 1 })

/-- The words of successive calls. -/
def genrands (count : ℕ) (state : Mt19937) : Option (List Word × Mt19937) :=
  forRange 0 count (fun _ (words, state) ↦ do
    let (word, state) ← genrand state
    some (words ++ [word], state)) ([], state)

def getrandbits (k : ℤ) (state : Mt19937) : Option (Except Raised ℕ × Mt19937) :=
  if k < 0 then some (.error (.valueError "number of bits must be non-negative"), state)
  else if k = 0 then some (.ok 0, state)
  else if k ≥ 2 ^ 64 then some (.error (.overflowError "number of bits is too large"), state)
  else do
    let k := k.toNat
    let words := (k - 1) / 32 + 1
    let (digits, state) ← forRange 0 words (fun index (digits, state) ↦ do
      let (r, state) ← genrand state
      let r := if index = words - 1 ∧ k % 32 ≠ 0 then r >>> (32 - k % 32) else r
      some (digits ++ [r], state)) ([], state)
    some (.ok (Nat.ofDigits (2 ^ 32) (digits.map BitVec.toNat)), state)

/-- No access is out of bounds, and the result satisfies `Q`. -/
def Gives {S : Type} (m : Option S) (Q : S → Prop) : Prop := ∃ s, m = some s ∧ Q s

variable {S : Type}

theorem Gives.bind {T : Type} {m : Option S} {f : S → Option T} {P : S → Prop} {Q : T → Prop}
    (first : Gives m P) (rest : ∀ s, P s → Gives (f s) Q) : Gives (m >>= f) Q := by
  obtain ⟨s, rfl, here⟩ := first
  exact rest s here

theorem Gives.mono {m : Option S} {P Q : S → Prop} (h : Gives m P) (imp : ∀ s, P s → Q s) :
    Gives m Q := by
  obtain ⟨s, run, here⟩ := h
  exact ⟨s, run, imp s here⟩

/-- What each turn keeps holds at the end of a loop. -/
theorem Gives.forRange {body : ℕ → S → Option S} (I : ℕ → S → Prop) {start count : ℕ}
    {s : S} (here : I start s)
    (turn : ∀ index s, start ≤ index → index < start + count → I index s →
      Gives (body index s) (I (index + 1))) :
    Gives (forRange start count body s) (I (start + count)) := by
  induction count generalizing start s with
  | zero => exact ⟨s, rfl, here⟩
  | succ count ih =>
    rw [Random.forRange, List.range'_succ, List.foldlM_cons, ← Nat.add_assoc, Nat.add_right_comm]
    exact (turn start s le_rfl (by omega) here).bind fun next there ↦
      ih there fun index s low high ↦ turn index s (by omega) (by omega)

theorem getElem?_of_lt {index : ℕ} (mt : Words) (inside : index < N) : mt[index]? = some mt[index] :=
  Vector.getElem?_eq_getElem inside

theorem put_of_lt {index : ℕ} (inside : index < N) (mt : Words) (word : Word) :
    put mt index word = some (mt.set index word) := dif_pos inside

theorem first_lt : 0 < N := by simp [N]

theorem last_lt : N - 1 < N := by simp [N]

/-- The terms of the linear recurrence from the words of a state. -/
def term (mt : Words) (n : ℕ) : Word :=
  if h : n < N then mt[n] else term mt (n - N + M) ^^^ twist (term mt (n - N)) (term mt (n - N + 1))
termination_by n
decreasing_by all_goals simp only [N, M] at h ⊢; omega

theorem term_add (mt : Words) (n : ℕ) :
    term mt (n + N) = term mt (n + M) ^^^ twist (term mt n) (term mt (n + 1)) := by
  rw [term, dif_neg (by omega), Nat.add_sub_cancel]

/-- The words are the terms from `p` on, each at its index in a block. -/
def Holds (seed : Words) (p : ℕ) (mt : Words) : Prop :=
  ∀ n, p ≤ n → n < p + N → mt[n % N]? = some (term seed n)

variable {seed mt : Words} {p block t : ℕ} {state : Mt19937}

theorem holds_zero (mt : Words) : Holds mt 0 mt := by
  intro n _ h
  rw [Nat.zero_add] at h
  rw [Nat.mod_eq_of_lt h, term, dif_pos h, Vector.getElem?_eq_getElem h]

/-- A renewed word replaces the oldest term. -/
theorem Holds.renew {kk next far : ℕ} (h : Holds seed p mt)
    (places : kk = p % N ∧ next = (p + 1) % N ∧ far = (p + M) % N) :
    Gives (renew kk next far mt) (Holds seed (p + 1)) := by
  obtain ⟨rfl, rfl, rfl⟩ := places
  simp only [Random.renew, h p le_rfl (by simp [N]), h (p + 1) (by omega) (by simp [N]),
    h (p + M) (by omega) (by simp [N, M]), Option.bind_eq_bind, Option.bind_some, ← term_add]
  refine ⟨_, put_of_lt (Nat.mod_lt p first_lt) _ _, fun n low high ↦ ?_⟩
  obtain rfl | earlier := Nat.eq_or_lt_of_le (Nat.le_of_lt_succ (Nat.add_right_comm p 1 N ▸ high))
  · simp
  · rw [Vector.getElem?_set_ne _ (by simp only [N] at *; omega), h n (by omega) earlier]

/-- The three ranges of a reload renew the words of a block in their order. -/
theorem Holds.reload (h : Holds seed (block * N) mt) :
    Gives (reload mt) (Holds seed ((block + 1) * N)) := by
  refine (Gives.forRange (fun kk ↦ Holds seed (block * N + kk)) (by simpa using h)
    fun kk mt _ high here ↦ here.renew (by simp only [N, M] at *; omega)).bind fun mt h ↦ ?_
  refine (Gives.forRange (fun kk ↦ Holds seed (block * N + kk)) (by simpa using h)
    fun kk mt low high here ↦ here.renew (by simp only [N, M] at *; omega)).bind fun mt h ↦ ?_
  have whole : block * N + (N - M + (M - 1)) + 1 = (block + 1) * N := by
    simp only [N, M]
    omega
  rw [← whole]
  exact h.renew (by simp only [N, M] at *; omega)

/-- The state is about to give the term at `t`. -/
def At (seed : Words) (t : ℕ) (state : Mt19937) : Prop :=
  ∃ block, Holds seed (block * N) state.mt ∧ block * N + min state.mti N = t

theorem genrand_at (h : At seed t state) :
    Gives (genrand state) fun (word, state) ↦
      word = temper (term seed t) ∧ At seed (t + 1) state := by
  obtain ⟨block, holds, rfl⟩ := h
  refine Gives.bind (P := fun state' : Mt19937 ↦ ∃ block', Holds seed (block' * N) state'.mt ∧ state'.mti < N ∧
    block' * N + state'.mti = block * N + min state.mti N) ?_ ?_
  · unfold refill
    split
    · next used =>
      exact holds.reload.bind fun mt holds ↦
        ⟨_, rfl, block + 1, holds, first_lt, by rw [min_eq_right used, Nat.add_one_mul, Nat.add_zero]⟩
    · next unused => exact ⟨_, rfl, block, holds, by omega, by rw [min_eq_left (by omega)]⟩
  · rintro state' ⟨block', holds, inside, same⟩
    have word := holds (block' * N + state'.mti) (by omega) (by omega)
    rw [Nat.mul_add_mod_self_right, Nat.mod_eq_of_lt inside, same] at word
    rw [word]
    exact ⟨_, rfl, rfl, block', holds, by rw [min_eq_left (by exact inside), ← same, Nat.add_assoc]⟩

theorem genrands_at (h : At seed t state) (count : ℕ) :
    Gives (genrands count state) fun (words, _) ↦
      words = (List.range count).map fun k ↦ temper (term seed (t + k)) := by
  refine (Gives.forRange (fun index (words, state) ↦ At seed (t + index) state ∧
      words = (List.range index).map fun k ↦ temper (term seed (t + k))) ⟨h, rfl⟩
    fun index next _ _ here ↦ ?_).mono fun result done ↦ by simpa using done.2
  refine (genrand_at here.1).bind fun result there ↦
    ⟨(next.1 ++ [result.1], result.2), rfl, there.2, ?_⟩
  simp [here.2, there.1, List.range_succ]

theorem initGenrand_gives (s : Word) (state : Mt19937) : Gives (initGenrand s state) fun _ ↦ True := by
  rw [initGenrand, put_of_lt first_lt]
  refine (Gives.forRange (fun _ _ ↦ True) trivial fun i mt low high _ ↦ ?_).bind
    fun mt _ ↦ ⟨_, rfl, trivial⟩
  rw [getElem?_of_lt mt (by omega)]
  exact ⟨_, put_of_lt (by omega) _ _, trivial⟩

theorem mixWord_gives {i : ℕ} (positive : 0 < i) (inside : i < N) (factor addend : Word)
    (mt : Words) : Gives (mixWord factor addend mt i) fun (_, i) ↦ 0 < i ∧ i < N := by
  simp only [mixWord, if_neg positive.ne', getElem?_of_lt _ (show i - 1 < N by omega),
    getElem?_of_lt _ inside, getElem?_of_lt _ last_lt, put_of_lt inside, put_of_lt first_lt,
    Option.bind_eq_bind, Option.bind_some]
  split
  · exact ⟨_, rfl, by simp [N]⟩
  · exact ⟨_, rfl, by simp only; omega⟩

theorem initByArray_gives (first : Word) (rest : List Word) (state : Mt19937) :
    Gives (initByArray (first :: rest) state) fun _ ↦ True := by
  refine (initGenrand_gives _ state).bind fun state _ ↦ ?_
  refine (Gives.forRange (fun _ (_, i, j) ↦ (0 < i ∧ i < N) ∧ j < (first :: rest).length)
    (by simp [N]) ?_).bind ?_
  · rintro - ⟨mt, i, j⟩ - - ⟨⟨positive, inside⟩, there⟩
    refine Gives.bind (P := fun _ ↦ True) ⟨_, List.getElem?_eq_getElem there, trivial⟩ fun word _ ↦ ?_
    refine (mixWord_gives positive inside _ _ mt).bind fun next place ↦ ⟨_, rfl, place, ?_⟩
    simp only [List.length_cons] at *
    split <;> omega
  · rintro ⟨mt, i, j⟩ ⟨place, -⟩
    refine (Gives.forRange (fun _ (_, i) ↦ 0 < i ∧ i < N) place fun _ next _ _ place ↦
      mixWord_gives place.1 place.2 _ _ _).bind fun next _ ↦ ?_
    exact Gives.bind (P := fun _ ↦ True) ⟨_, put_of_lt first_lt _ _, trivial⟩
      fun _ _ ↦ ⟨_, rfl, trivial⟩

theorem ofDigits_append_lt {digits : List Word} {r : Word} {width : ℕ}
    (bound : Nat.ofDigits (2 ^ 32) (digits.map BitVec.toNat) < 2 ^ (32 * digits.length))
    (narrow : r.toNat < 2 ^ width) :
    Nat.ofDigits (2 ^ 32) ((digits ++ [r]).map BitVec.toNat) < 2 ^ (32 * digits.length + width) := by
  rw [List.map_append, Nat.ofDigits_append, List.length_map, ← pow_mul, pow_add]
  calc
    _ < 2 ^ (32 * digits.length) + 2 ^ (32 * digits.length) * r.toNat := by simpa using bound
    _ = 2 ^ (32 * digits.length) * (r.toNat + 1) := by ring
    _ ≤ 2 ^ (32 * digits.length) * 2 ^ width := Nat.mul_le_mul_left _ narrow

theorem getrandbits_gives (k : ℤ) (h : At seed t state) :
    Gives (getrandbits k state) fun (outcome, _) ↦
      ∀ value, outcome = .ok value → value < 2 ^ k.toNat := by
  unfold getrandbits
  split_ifs with negative zero large
  · exact ⟨_, rfl, by simp⟩
  · exact ⟨_, rfl, by simp⟩
  · exact ⟨_, rfl, by simp⟩
  obtain ⟨k, rfl⟩ := Int.eq_ofNat_of_zero_le (not_lt.mp negative)
  simp only [Int.toNat_natCast]
  refine (Gives.forRange (fun index (digits, state) ↦ digits.length = index ∧
    Nat.ofDigits (2 ^ 32) (digits.map BitVec.toNat) < 2 ^ min (32 * index) k ∧ At seed (t + index) state)
    ⟨rfl, by simp, h⟩ ?_).bind ?_
  · rintro index ⟨digits, state⟩ - inside ⟨rfl, bound, here⟩
    refine (genrand_at here).bind ?_
    rintro ⟨r, state⟩ ⟨-, there⟩
    refine ⟨_, rfl, by simp, ?_, there⟩
    rw [min_eq_left (by omega)] at bound
    split_ifs with last
    · rw [show min (32 * (digits.length + 1)) k = 32 * digits.length + k % 32 by omega]
      refine ofDigits_append_lt bound ?_
      rw [BitVec.toNat_ushiftRight, Nat.shiftRight_eq_div_pow]
      refine Nat.div_lt_of_lt_mul ?_
      rw [← Nat.pow_add, show 32 - k % 32 + k % 32 = 32 by omega]
      exact r.isLt
    · rw [show min (32 * (digits.length + 1)) k = 32 * digits.length + 32 by omega]
      exact ofDigits_append_lt bound r.isLt
  · rintro ⟨digits, state⟩ ⟨-, bound, -⟩
    refine ⟨_, rfl, ?_⟩
    rintro _ ⟨⟩
    exact bound.trans_le (Nat.pow_le_pow_right (by simp) (min_le_right _ _))

/-- Successive words are the tempered terms of the recurrence, also across reloads; no access is out of
bounds; and `getrandbits(k)` is below `2 ^ k`. -/
theorem mersenne_twister (state : Mt19937) :
    (∀ count, Gives (genrands count state) fun (words, _) ↦
      words = (List.range count).map fun k ↦ temper (term state.mt (min state.mti N + k))) ∧
    (∀ first rest, Gives (initByArray (first :: rest) state) fun _ ↦ True) ∧
    ∀ k, Gives (getrandbits k state) fun (outcome, _) ↦
      ∀ value, outcome = .ok value → value < 2 ^ k.toNat := by
  have start : At state.mt (min state.mti N) state := ⟨0, by simpa using holds_zero state.mt, by simp⟩
  exact ⟨genrands_at start, fun first rest ↦ initByArray_gives first rest state,
    fun k ↦ getrandbits_gives k start⟩

end Pon.Random
