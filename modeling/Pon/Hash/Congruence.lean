import Pon.Hash.Object
import Pon.Lib.Matching

/-!
# Equal objects have equal hashes

Structural equality is identity or similarity of the contents, where the contents of a number are
its value, those of a tuple its items, and those of a frozenset its entries up to order. On objects
of one heap that contain only tuple subclasses without Python-level hooks the comparison is always
decided and is an equivalence, and similar objects have equal hashes.
-/

namespace Pon.Hash

open Pon.Matching

/-! ## Well-built objects -/

/-- The objects held by a container. -/
def Value.children : Value → List Value
  | .tuple _ items | .tupleSubclass _ _ items | .frozenset _ items => items
  | _ => []

def Value.isContainer : Value → Bool
  | .tuple _ _ | .tupleSubclass _ _ _ | .frozenset _ _ => true
  | _ => false

/-- A heap object is the one that the heap holds at its address. -/
def InHeap (heap : ℕ → Value) (v : Value) : Prop :=
  ∀ addr, v.word = .inr addr → heap addr = v

/-- Objects of one heap, nested to any depth: scalars, tuples, instances of tuple subclasses whose
classes define neither `__eq__` nor `__hash__`, and frozensets with the unique entries of a list of
such objects. -/
inductive WellBuilt (hooks : Hooks) (heap : ℕ → Value) : Value → Prop
  | scalar {v : Value} : v.isContainer = false → InHeap heap v → WellBuilt hooks heap v
  | tuple {addr : ℕ} {items : List Value} : heap addr = .tuple addr items →
      (∀ item ∈ items, WellBuilt hooks heap item) → WellBuilt hooks heap (.tuple addr items)
  | tupleSubclass {addr : ℕ} {cls : TupleClass} {items : List Value} :
      heap addr = .tupleSubclass addr cls items → cls.definesEq = false → cls.hashHook = none →
      (∀ item ∈ items, WellBuilt hooks heap item) →
      WellBuilt hooks heap (.tupleSubclass addr cls items)
  | frozenset {addr : ℕ} {items entries : List Value} : heap addr = .frozenset addr entries →
      (∀ item ∈ items, WellBuilt hooks heap item) → uniqueEntries hooks items = .ok entries →
      WellBuilt hooks heap (.frozenset addr entries)

/-- The comparison is decided and finds the objects equal. -/
def Equal (hooks : Hooks) (a b : Value) : Prop :=
  objectEqualStructural hooks a b = some (.ok true)

/-- The comparison is decided. -/
def Decided (hooks : Hooks) (a b : Value) : Prop :=
  ∃ equal, objectEqualStructural hooks a b = some (.ok equal)

/-! ## Contents -/

/-- What the comparison sees of an object. NaN and `None` are equal to nothing but themselves. -/
inductive View
  | number (key : RealKey × RealKey)
  | identityOnly
  | text (utf8 : List UInt8)
  | data (data : List UInt8)
  | sequence (items : List Value)
  | set (entries : List Value)

variable (real imag : Option RealKey)

/-- A complex number; a float is one with the imaginary part zero. -/
def numberView : View :=
  match real, imag with
  | some realPart, some imagPart => .number (realPart, imagPart)
  | _, _ => .identityOnly

def view : Value → View
  | .none _ => .identityOnly
  | .bool _ value => .number (.integer (if value then 1 else 0), .integer 0)
  | .smallInt value => .number (.integer value, .integer 0)
  | .int _ value => .number (.integer value, .integer 0)
  | .float _ value => numberView (realKey value) (some (.integer 0))
  | .complex _ real imag => numberView (realKey real) (realKey imag)
  | .str _ utf8 => .text utf8
  | .bytes _ data => .data data
  | .tuple _ items => .sequence items
  | .tupleSubclass _ _ items => .sequence items
  | .frozenset _ entries => .set entries

def Similar (rel : Value → Value → Prop) : View → View → Prop
  | .number key, .number key' => key = key'
  | .text utf8, .text utf8' => utf8 = utf8'
  | .data data, .data data' => data = data'
  | .sequence items, .sequence items' => List.Forall₂ rel items items'
  | .set entries, .set entries' => entries.length = entries'.length ∧
      ∀ entry ∈ entries, ∃ entry' ∈ entries', rel entry' entry
  | _, _ => False

/-! ## The comparison is decided -/

section Loops

variable {hooks : Hooks}

variable {l r : List Value}

theorem zipEqual_spec (hlength : l.length = r.length)
    (hdecided : ∀ a ∈ l, ∀ b ∈ r, Decided hooks a b) :
    ∃ equal, zipEqual hooks l r = some (.ok equal) ∧
      (equal = true ↔ List.Forall₂ (Equal hooks) l r) := by
  induction l generalizing r with
  | nil =>
    obtain rfl := List.length_eq_zero_iff.mp hlength.symm
    exact ⟨true, by simp [zipEqual], by simp⟩
  | cons a l ih =>
    cases r with
    | nil => simp at hlength
    | cons b r =>
      obtain ⟨equal, hequal⟩ := hdecided a (by simp) b (by simp)
      rw [zipEqual, hequal]
      cases equal with
      | true =>
        obtain ⟨rest, hrest, hiff⟩ := ih (by simpa using hlength)
          fun x hx y hy ↦ hdecided x (by simp [hx]) y (by simp [hy])
        refine ⟨rest, hrest, ?_⟩
        rw [List.forall₂_cons, hiff]
        exact ⟨fun h ↦ ⟨hequal, h⟩, fun h ↦ h.2⟩
      | false =>
        refine ⟨false, rfl, ?_⟩
        simp [List.forall₂_cons, Equal, hequal]

theorem objectEqual_of_structural {a b : Value} {equal : Bool}
    (h : objectEqualStructural hooks a b = some (.ok equal)) : objectEqual hooks a b = .ok equal := by
  rw [objectEqual, h]

theorem findElementIndex_spec {entries : List Value} {item : Value} (index : ℕ)
    (hdecided : ∀ entry ∈ entries, Decided hooks entry item) :
    ∃ found, findElementIndex hooks entries item index = .ok found ∧
      (found.isSome = true ↔ ∃ entry ∈ entries, Equal hooks entry item) := by
  induction entries generalizing index with
  | nil => exact ⟨none, by rw [findElementIndex], by simp⟩
  | cons entry rest ih =>
    obtain ⟨equal, hequal⟩ := hdecided entry (by simp)
    rw [findElementIndex, objectEqual_of_structural hequal]
    cases equal with
    | true => exact ⟨some index, rfl, by simp [Equal, hequal]⟩
    | false =>
      obtain ⟨found, hfound, hiff⟩ := ih (index + 1) fun x hx ↦ hdecided x (by simp [hx])
      refine ⟨found, hfound, ?_⟩
      have hne : ¬ Equal hooks entry item := by simp [Equal, hequal]
      simp [hiff, hne]

theorem entriesSubset_spec (hdecided : ∀ x ∈ l, ∀ y ∈ r, Decided hooks y x) :
    ∃ subset, entriesSubset hooks l r = .ok subset ∧
      (subset = true ↔ ∀ x ∈ l, ∃ y ∈ r, Equal hooks y x) := by
  induction l with
  | nil => exact ⟨true, by rw [entriesSubset], by simp⟩
  | cons x l ih =>
    obtain ⟨found, hfound, hiff⟩ := findElementIndex_spec 0 (hdecided x (by simp))
    rw [entriesSubset, hfound]
    cases found with
    | none =>
      refine ⟨false, rfl, ?_⟩
      have hne : ¬ ∃ y ∈ r, Equal hooks y x := by rw [← hiff]; simp
      simp only [Bool.false_eq_true, false_iff]
      exact fun hall ↦ hne (hall x (by simp))
    | some index =>
      obtain ⟨subset, hsubset, hiff'⟩ := ih fun y hy ↦ hdecided y (by simp [hy])
      refine ⟨subset, hsubset, ?_⟩
      have hx : ∃ y ∈ r, Equal hooks y x := by rw [← hiff]; simp
      simp [hiff', hx]

end Loops

/-! ## Numbers -/

theorem numberView_eq_number_iff (key : RealKey × RealKey) :
    numberView real imag = .number key ↔ real = some key.1 ∧ imag = some key.2 := by
  obtain ⟨k₁, k₂⟩ := key
  cases real <;> cases imag <;> simp [numberView]

variable (rel : Value → Value → Prop)

/-- Numbers are similar when both parts are and neither is NaN. -/
theorem similar_numberView_iff (v : View) : Similar rel (numberView real imag) v ↔
      ∃ key, v = .number key ∧ real = some key.1 ∧ imag = some key.2 := by
  cases real <;> cases imag <;> cases v <;> simp [numberView, Similar, Prod.ext_iff, eq_comm]

theorem similar_numberView_right_iff (v : View) : Similar rel v (numberView real imag) ↔
      ∃ key, v = .number key ∧ real = some key.1 ∧ imag = some key.2 := by
  cases real <;> cases imag <;> cases v <;> simp [numberView, Similar, Prod.ext_iff, eq_comm]

variable {a b : Value} {hooks : Hooks}

theorem view_of_toBigint {n : ℤ} (h : toBigintIncludingBool a = some n) :
    view a = numberView (some (.integer n)) (some (.integer 0)) := by
  cases a <;> simp_all [toBigintIncludingBool, view, numberView]

theorem view_of_toF64 {v : F64} (h : toF64 a = some v) :
    view a = numberView (realKey v) (some (.integer 0)) := by
  cases a <;> simp_all [toF64, view]

theorem view_of_toF64s {real imag : F64} (h : toF64s a = some (real, imag)) :
    view a = numberView (realKey real) (realKey imag) := by
  cases a <;> simp_all [toF64s, view]

/-- An object that is no number does not look like one. -/
theorem view_ne_number (hint : toBigintIncludingBool a = none) (hfloat : toF64 a = none)
    (hcomplex : toF64s a = none) (key : RealKey × RealKey) : view a ≠ .number key := by
  cases a <;> simp_all [toBigintIncludingBool, toF64, toF64s, view]

theorem floatEq_iff_exists_key (v w : F64) :
    floatEq v w = true ↔ ∃ k, realKey v = some k ∧ realKey w = some k := by
  rw [floatEq_iff_realKey]
  cases realKey v <;> simp [eq_comm]

theorem numericIntEqual_iff (n : ℤ) (b : Value) :
    numericIntEqual n b = true ↔ view b = .number (.integer n, .integer 0) := by
  unfold numericIntEqual
  cases hint : toBigintIncludingBool b with
  | some m =>
    rw [view_of_toBigint hint, numberView_eq_number_iff]
    simp only [beq_iff_eq, Option.some.injEq, RealKey.integer.injEq, and_true]
    exact eq_comm
  | none =>
    cases hfloat : toF64 b with
    | some v =>
      simp [view_of_toF64 hfloat, numberView_eq_number_iff, realKey_eq_integer_iff]
    | none =>
      cases hcomplex : toF64s b with
      | some parts =>
        obtain ⟨real, imag⟩ := parts
        rw [view_of_toF64s hcomplex, numberView_eq_number_iff, realKey_eq_integer_iff,
          ← isZero_iff_realKey, Bool.and_eq_true, and_comm]
      | none =>
        simp [view_ne_number hint hfloat hcomplex]

theorem numericFloatEqual_iff (v : F64) (hint : toBigintIncludingBool b = none) :
    numericFloatEqual v b = true ↔
      ∃ key, view b = .number key ∧ realKey v = some key.1 ∧ some (.integer 0) = some key.2 := by
  unfold numericFloatEqual
  cases hfloat : toF64 b with
  | some w =>
    simp only [view_of_toF64 hfloat, numberView_eq_number_iff, floatEq_iff_exists_key]
    constructor
    · rintro ⟨k, hv, hw⟩
      exact ⟨(k, .integer 0), ⟨hw, rfl⟩, hv, rfl⟩
    · rintro ⟨key, ⟨hw, _⟩, hv, _⟩
      exact ⟨key.1, hv, hw⟩
  | none =>
    cases hcomplex : toF64s b with
    | some parts =>
      obtain ⟨real, imag⟩ := parts
      simp only [view_of_toF64s hcomplex, numberView_eq_number_iff, Bool.and_eq_true,
        floatEq_iff_exists_key, isZero_iff_realKey]
      constructor
      · rintro ⟨himag, k, hv, hreal⟩
        exact ⟨(k, .integer 0), ⟨hreal, himag⟩, hv, rfl⟩
      · rintro ⟨key, ⟨hreal, himag⟩, hv, hzero⟩
        exact ⟨by rw [himag, hzero], key.1, hv, hreal⟩
    | none => simp [view_ne_number hint hfloat hcomplex]

/-- The numeric comparison, where it applies, compares the values. -/
theorem numericObjectEqual_iff {equal : Bool}
    (h : numericObjectEqual a b = some equal) :
    equal = true ↔ Similar rel (view a) (view b) := by
  unfold numericObjectEqual at h
  cases ha : toBigintIncludingBool a with
  | some n =>
    simp only [ha, Option.some.injEq] at h
    rw [← h, numericIntEqual_iff, view_of_toBigint ha, similar_numberView_iff]
    simp [eq_comm]
  | none =>
    cases hb : toBigintIncludingBool b with
    | some n =>
      simp only [ha, hb, Option.some.injEq] at h
      rw [← h, numericIntEqual_iff, view_of_toBigint hb, similar_numberView_right_iff]
      simp [eq_comm]
    | none =>
      simp only [ha, hb] at h
      cases hfa : toF64 a with
      | some v =>
        simp only [hfa, Option.some.injEq] at h
        rw [← h, numericFloatEqual_iff v hb, view_of_toF64 hfa, similar_numberView_iff]
      | none =>
        cases hfb : toF64 b with
        | some v =>
          simp only [hfa, hfb, Option.some.injEq] at h
          rw [← h, numericFloatEqual_iff v ha, view_of_toF64 hfb, similar_numberView_right_iff]
        | none =>
          simp only [hfa, hfb] at h
          split at h
          · rename_i real imag real' imag' hca hcb
            rw [← Option.some.inj h, view_of_toF64s hca, view_of_toF64s hcb, similar_numberView_iff]
            simp only [Bool.and_eq_true, floatEq_iff_exists_key, numberView_eq_number_iff]
            constructor
            · rintro ⟨⟨k, hreal, hreal'⟩, l, himag, himag'⟩
              exact ⟨(k, l), ⟨hreal', himag'⟩, hreal, himag⟩
            · rintro ⟨key, ⟨hreal', himag'⟩, hreal, himag⟩
              exact ⟨⟨key.1, hreal, hreal'⟩, key.2, himag, himag'⟩
          · cases h

theorem of_numericObjectEqual_none (h : numericObjectEqual a b = none) :
    toBigintIncludingBool a = none ∧ toBigintIncludingBool b = none ∧ toF64 a = none ∧
      toF64 b = none ∧ (toF64s a = none ∨ toF64s b = none) := by
  unfold numericObjectEqual at h
  split at h
  · cases h
  · cases h
  · split at h
    · cases h
    · cases h
    · split at h
      · cases h
      · rename_i hints hfloats _ _ hcomplex
        refine ⟨by assumption, by assumption, by assumption, by assumption, ?_⟩
        cases ha : toF64s a with
        | none => exact Or.inl rfl
        | some parts =>
          cases hb : toF64s b with
          | none => exact Or.inr rfl
          | some parts' => exact (hcomplex _ _ _ _ ha hb).elim

/-! ## Equality is identity or similarity -/

/-- Comparisons of the containers' elements, in the order of their arguments, are decided. -/
def ChildrenDecided (hooks : Hooks) (a b : Value) : Prop :=
  ∀ x ∈ a.children, ∀ y ∈ b.children, Decided hooks x y ∧ Decided hooks y x

variable {l r : List Value} {x : Value}

section

variable (hdecided : ∀ x ∈ l, ∀ y ∈ r, Decided hooks x y ∧ Decided hooks y x)
include hdecided

theorem slicesEqualStructural_spec :
    ∃ equal, slicesEqualStructural hooks l r = some (.ok equal) ∧
      (equal = true ↔ List.Forall₂ (Equal hooks) l r) := by
  rw [slicesEqualStructural]
  by_cases hlength : l.length = r.length
  · obtain ⟨equal, hzip, hiff⟩ := zipEqual_spec hlength fun x hx y hy ↦ (hdecided x hx y hy).1
    exact ⟨equal, by simp [hlength, hzip], hiff⟩
  · refine ⟨false, by simp [hlength], ?_⟩
    simp only [Bool.false_eq_true, false_iff]
    exact fun hforall ↦ hlength hforall.length_eq

theorem setEqual_spec :
    ∃ equal, setEqual hooks l r = .ok equal ∧
      (equal = true ↔ l.length = r.length ∧ ∀ x ∈ l, ∃ y ∈ r, Equal hooks y x) := by
  rw [setEqual]
  by_cases hlength : l.length = r.length
  · obtain ⟨subset, hsubset, hiff⟩ := entriesSubset_spec fun x hx y hy ↦ (hdecided x hx y hy).2
    exact ⟨subset, by simp [hlength, hsubset], by simp [hlength, hiff]⟩
  · exact ⟨false, by simp [hlength], by simp [hlength]⟩

end

/-- One level of the comparison. -/
theorem objectEqualStructural_step (ha : definesEq a = false) (hb : definesEq b = false)
    (hdecided : ChildrenDecided hooks a b) :
    ∃ equal, objectEqualStructural hooks a b = some (.ok equal) ∧
      (equal = true ↔ a.word = b.word ∨ Similar (Equal hooks) (view a) (view b)) := by
  by_cases hword : a.word = b.word
  · exact ⟨true, by rw [objectEqualStructural.eq_def, if_pos hword], by simp [hword]⟩
  · rw [objectEqualStructural.eq_def, if_neg hword, ha, hb]
    simp only [hword, false_or, Bool.or_self, Bool.false_eq_true, if_false]
    cases hnumeric : numericObjectEqual a b with
    | some equal => exact ⟨equal, rfl, numericObjectEqual_iff _ hnumeric⟩
    | none =>
      obtain ⟨hia, hib, hfa, hfb, hcomplex⟩ := of_numericObjectEqual_none hnumeric
      cases a <;> simp [toBigintIncludingBool, toF64] at hia hfa <;>
        cases b <;> simp [toBigintIncludingBool, toF64] at hib hfb
      case complex.complex => simp [toF64s] at hcomplex
      case str.str leftAddr l rightAddr r =>
        refine ⟨l == r, ?_, by simp [view, Similar]⟩
        simp only [unicodeText, bytesPayloadSlice]
        split <;> simp_all
      case bytes.bytes leftAddr l rightAddr r =>
        exact ⟨l == r, by simp [unicodeText, bytesPayloadSlice], by simp [view, Similar]⟩
      case tuple.tuple | tuple.tupleSubclass | tupleSubclass.tuple | tupleSubclass.tupleSubclass =>
        simpa [unicodeText, bytesPayloadSlice, view, Similar, Value.children]
          using slicesEqualStructural_spec hdecided
      case frozenset.frozenset =>
        simpa [unicodeText, bytesPayloadSlice, view, Similar, Value.children]
          using setEqual_spec hdecided
      -- The remaining pairs have different layouts.
      all_goals
        refine ⟨false, by simp [unicodeText, bytesPayloadSlice], ?_⟩
        simp only [view, similar_numberView_iff, similar_numberView_right_iff]
        simp [Similar]

/-! ## Well-built objects are comparable and hashable -/

theorem sizeOf_children_lt {v : Value} (h : x ∈ v.children) : sizeOf x < sizeOf v := by
  cases v <;> simp only [Value.children, List.not_mem_nil] at h
  all_goals
    have := List.sizeOf_lt_of_mem h
    simp
    omega

theorem mem_of_insertUniqueEntries {items target entries : List Value}
    (h : insertUniqueEntries hooks target items = .ok entries) (hx : x ∈ entries) :
    x ∈ target ∨ x ∈ items := by
  induction items generalizing target with
  | nil =>
    rw [insertUniqueEntries] at h
    exact Or.inl (Except.ok.inj h ▸ hx)
  | cons item rest ih =>
    rw [insertUniqueEntries] at h
    split at h
    · cases h
    · split at h
      · cases h
      · have := ih h
        grind
      · have := ih h
        grind

section WellBuilt

variable {hooks : Hooks} {heap : ℕ → Value}

variable {v a b : Value} {items entries l r : List Value}

variable {x c : Value} {target : List Value} {addr : ℕ}

section

variable (h : WellBuilt hooks heap v)
include h

theorem WellBuilt.of_mem_children (hx : x ∈ v.children) :
    WellBuilt hooks heap x := by
  cases h with
  | scalar hscalar _ => cases v <;> simp_all [Value.children, Value.isContainer]
  | tuple _ hitems => exact hitems x hx
  | tupleSubclass _ _ _ hitems => exact hitems x hx
  | frozenset _ hitems hunique =>
    exact hitems x (by simpa using mem_of_insertUniqueEntries hunique hx)

theorem WellBuilt.inHeap : InHeap heap v := by
  cases h with
  | scalar _ hheap => exact hheap
  | tuple hheap | tupleSubclass hheap | frozenset hheap =>
    intro addr haddr
    simp only [Value.word, Sum.inr.injEq] at haddr
    rw [← haddr, hheap]

theorem WellBuilt.definesEq : Pon.Hash.definesEq v = false := by
  cases h with
  | scalar hscalar _ => cases v <;> simp_all [Pon.Hash.definesEq, Value.isContainer]
  | tuple | frozenset => rfl
  | tupleSubclass _ heq => exact heq

end

section

variable (ha : WellBuilt hooks heap a) (hb : WellBuilt hooks heap b)
include ha hb

/-- References with the same word are references to the same object. -/
theorem WellBuilt.eq_of_word_eq (hword : a.word = b.word) : a = b := by
  cases haddr : a.word with
  | inl n =>
    rw [haddr] at hword
    cases a <;> simp [Value.word] at haddr
    cases b <;> simp [Value.word] at hword
    rw [haddr, hword]
  | inr addr =>
    rw [← ha.inHeap addr haddr, hb.inHeap addr (hword ▸ haddr)]

theorem WellBuilt.decided :
    Decided hooks a b := by
  induction hsize : sizeOf a + sizeOf b using Nat.strongRecOn generalizing a b with
  | _ n ih =>
    have hchildren : ChildrenDecided hooks a b := by
      intro x hx y hy
      have hxa := sizeOf_children_lt hx
      have hyb := sizeOf_children_lt hy
      have hwx := ha.of_mem_children hx
      have hwy := hb.of_mem_children hy
      exact ⟨ih _ (by omega) hwx hwy rfl, ih _ (by omega) hwy hwx rfl⟩
    obtain ⟨equal, hequal, _⟩ := objectEqualStructural_step ha.definesEq hb.definesEq hchildren
    exact ⟨equal, hequal⟩

/-- Equality is identity or similarity. -/
theorem WellBuilt.equal_iff :
    Equal hooks a b ↔ a = b ∨ Similar (Equal hooks) (view a) (view b) := by
  have hchildren : ChildrenDecided hooks a b := fun x hx y hy ↦
    ⟨(ha.of_mem_children hx).decided (hb.of_mem_children hy),
      (hb.of_mem_children hy).decided (ha.of_mem_children hx)⟩
  obtain ⟨equal, hequal, hiff⟩ := objectEqualStructural_step ha.definesEq hb.definesEq hchildren
  have hword : a.word = b.word ↔ a = b := ⟨ha.eq_of_word_eq hb, fun h ↦ h ▸ rfl⟩
  rw [Equal, hequal, ← hword, ← hiff]
  simp

end

/-- An item that is equal to an entry is left out, and another one becomes an entry. -/
theorem insertUniqueEntries_cons (hitem : WellBuilt hooks heap x)
    (htarget : ∀ entry ∈ target, WellBuilt hooks heap entry)
    (h : insertUniqueEntries hooks target (x :: items) = .ok entries) :
    (∃ entry ∈ target, Equal hooks entry x) ∧ insertUniqueEntries hooks target items = .ok entries ∨
      (∀ entry ∈ target, ¬ Equal hooks entry x) ∧
        (∀ entry ∈ target ++ [x], WellBuilt hooks heap entry) ∧
          insertUniqueEntries hooks (target ++ [x]) items = .ok entries := by
  obtain ⟨found, hfound, hiff⟩ :=
    findElementIndex_spec 0 fun entry hentry ↦ (htarget entry hentry).decided hitem
  rw [insertUniqueEntries, hfound] at h
  split at h
  · cases h
  · cases found with
    | some index => exact Or.inl ⟨hiff.mp rfl, h⟩
    | none =>
      refine Or.inr ⟨fun entry hentry hequal ↦ ?_, fun entry hentry ↦ ?_, h⟩
      · have := hiff.mpr ⟨entry, hentry, hequal⟩
        simp at this
      · rcases List.mem_append.mp hentry with hmem | hmem
        · exact htarget entry hmem
        · exact List.mem_singleton.mp hmem ▸ hitem

theorem insertUniqueEntries_pairwise (hitems : ∀ item ∈ items, WellBuilt hooks heap item)
    (htarget : ∀ entry ∈ target, WellBuilt hooks heap entry)
    (hpairwise : target.Pairwise fun x y ↦ ¬ Equal hooks x y)
    (h : insertUniqueEntries hooks target items = .ok entries) :
    entries.Pairwise fun x y ↦ ¬ Equal hooks x y := by
  induction items generalizing target with
  | nil =>
    rw [insertUniqueEntries] at h
    exact Except.ok.inj h ▸ hpairwise
  | cons item rest ih =>
    have hitem := hitems item (by simp)
    have hrest : ∀ x ∈ rest, WellBuilt hooks heap x := fun x hx ↦ hitems x (by simp [hx])
    rcases insertUniqueEntries_cons hitem htarget h with ⟨_, h⟩ | ⟨hnone, htarget', h⟩
    · exact ih hrest htarget hpairwise h
    · refine ih hrest htarget' (List.pairwise_append.mpr ⟨hpairwise, List.pairwise_singleton _ _, ?_⟩) h
      intro x hx y hy
      exact List.mem_singleton.mp hy ▸ hnone x hx

theorem WellBuilt.pairwise (h : WellBuilt hooks heap (.frozenset addr entries)) :
    entries.Pairwise fun x y ↦ ¬ Equal hooks x y := by
  cases h with
  | scalar hscalar _ => simp [Value.isContainer] at hscalar
  | frozenset _ hitems hunique =>
    exact insertUniqueEntries_pairwise hitems (by simp) List.Pairwise.nil hunique

/-! ## Equality is an equivalence -/

theorem view_children (h : view a = .sequence items ∨ view a = .set items) :
    a.children = items := by
  cases a <;> simp [view, Value.children, numberView] at h ⊢ <;> grind

theorem eq_frozenset_of_view (h : view a = .set entries) : ∃ addr, a = .frozenset addr entries := by
  cases a <;> simp [view, numberView] at h ⊢ <;> grind

/-- Two elements of a frozenset do not equal the same object. -/
theorem separate_of_pairwise {left right : List Value}
    (hpairwise : left.Pairwise fun x y ↦ ¬ Equal hooks x y)
    (hsymm : ∀ x ∈ left, ∀ z ∈ right, Equal hooks z x → Equal hooks x z)
    (htrans : ∀ x ∈ left, ∀ z ∈ right, ∀ y ∈ left,
      Equal hooks x z → Equal hooks z y → Equal hooks x y) :
    left.Pairwise fun x y ↦ ∀ z ∈ right, Equal hooks z x → ¬ Equal hooks z y := by
  apply hpairwise.imp_of_mem
  intro x y hx hy hne z hz hzx hzy
  exact hne (htrans x hx z hz y hy (hsymm x hx z hz hzx) hzy)

theorem similar_trans (htrans : ∀ x ∈ a.children, ∀ y ∈ b.children, ∀ z ∈ c.children,
      (Equal hooks x y → Equal hooks y z → Equal hooks x z) ∧
        (Equal hooks z y → Equal hooks y x → Equal hooks z x))
    (hab : Similar (Equal hooks) (view a) (view b)) (hbc : Similar (Equal hooks) (view b) (view c)) :
    Similar (Equal hooks) (view a) (view c) := by
  cases ha : view a <;> cases hb : view b <;> simp only [ha, hb, Similar] at hab <;>
    cases hc : view c <;> simp only [hb, hc, Similar] at hbc
  case number => exact hab.trans hbc
  case text => exact hab.trans hbc
  case data => exact hab.trans hbc
  case sequence l m r =>
    rw [view_children (Or.inl ha), view_children (Or.inl hb), view_children (Or.inl hc)] at htrans
    exact forall₂_trans hab hbc fun x hx y hy z hz ↦ (htrans x hx y hy z hz).1
  case set l m r =>
    rw [view_children (Or.inr ha), view_children (Or.inr hb), view_children (Or.inr hc)] at htrans
    refine ⟨hab.1.trans hbc.1, fun x hx ↦ ?_⟩
    obtain ⟨y, hy, hyx⟩ := hab.2 x hx
    obtain ⟨z, hz, hzy⟩ := hbc.2 y hy
    exact ⟨z, hz, (htrans x hx y hy z hz).2 hzy hyx⟩

theorem WellBuilt.equal_trans (ha : WellBuilt hooks heap a) (hb : WellBuilt hooks heap b)
    (hc : WellBuilt hooks heap c) (hab : Equal hooks a b) (hbc : Equal hooks b c) :
    Equal hooks a c := by
  induction hsize : sizeOf a + sizeOf b + sizeOf c using Nat.strongRecOn generalizing a b c with
  | _ n ih =>
    have hchildren : ∀ x ∈ a.children, ∀ y ∈ b.children, ∀ z ∈ c.children,
        (Equal hooks x y → Equal hooks y z → Equal hooks x z) ∧
          (Equal hooks z y → Equal hooks y x → Equal hooks z x) := by
      intro x hx y hy z hz
      have hxa := sizeOf_children_lt hx
      have hyb := sizeOf_children_lt hy
      have hzc := sizeOf_children_lt hz
      have hwx := ha.of_mem_children hx
      have hwy := hb.of_mem_children hy
      have hwz := hc.of_mem_children hz
      exact ⟨fun hxy hyz ↦ ih _ (by omega) hwx hwy hwz hxy hyz rfl,
        fun hzy hyx ↦ ih _ (by omega) hwz hwy hwx hzy hyx rfl⟩
    rcases (ha.equal_iff hb).mp hab with rfl | hsim
    · exact hbc
    · rcases (hb.equal_iff hc).mp hbc with rfl | hsim'
      · exact hab
      · exact (ha.equal_iff hc).mpr (Or.inr (similar_trans hchildren hsim hsim'))

/-- Elements of two frozensets of equal size, each of the first found in the second, are in
one-to-one correspondence. -/
theorem exists_perm_of_similar_sets (hl : ∀ x ∈ l, WellBuilt hooks heap x)
    (hr : ∀ y ∈ r, WellBuilt hooks heap y) (hpairwise : l.Pairwise fun x y ↦ ¬ Equal hooks x y)
    (hsymm : ∀ x ∈ l, ∀ y ∈ r, Equal hooks y x → Equal hooks x y) (hlength : l.length = r.length)
    (hfound : ∀ x ∈ l, ∃ y ∈ r, Equal hooks y x) :
    ∃ answers, answers.Perm r ∧ List.Forall₂ (fun x y ↦ Equal hooks y x) l answers := by
  apply exists_perm_forall₂ hlength _ hfound
  apply separate_of_pairwise hpairwise hsymm
  exact fun x hx z hz y hy ↦ (hl x hx).equal_trans (hr z hz) (hl y hy)

section

variable (ha : WellBuilt hooks heap a)
include ha

theorem similar_symm (hb : WellBuilt hooks heap b)
    (hsymm : ∀ x ∈ a.children, ∀ y ∈ b.children,
      (Equal hooks x y → Equal hooks y x) ∧ (Equal hooks y x → Equal hooks x y))
    (hab : Similar (Equal hooks) (view a) (view b)) : Similar (Equal hooks) (view b) (view a) := by
  cases hva : view a <;> cases hvb : view b <;> simp only [hva, hvb, Similar] at hab ⊢
  case number => exact hab.symm
  case text => exact hab.symm
  case data => exact hab.symm
  case sequence l r =>
    rw [view_children (Or.inl hva), view_children (Or.inl hvb)] at hsymm
    apply List.Forall₂.flip
    exact forall₂_imp_of_mem hab fun x hx y hy ↦ (hsymm x hx y hy).1
  case set l r =>
    have hla : a.children = l := view_children (Or.inr hva)
    have hrb : b.children = r := view_children (Or.inr hvb)
    rw [hla, hrb] at hsymm
    have hpairwise : l.Pairwise fun x y ↦ ¬ Equal hooks x y := by
      obtain ⟨addr, rfl⟩ := eq_frozenset_of_view hva
      exact ha.pairwise
    obtain ⟨answers, hperm, hforall⟩ := exists_perm_of_similar_sets
      (fun x hx ↦ ha.of_mem_children (hla ▸ hx)) (fun y hy ↦ hb.of_mem_children (hrb ▸ hy))
      hpairwise (fun x hx y hy ↦ (hsymm x hx y hy).2) hab.1 hab.2
    refine ⟨hab.1.symm, fun y hy ↦ ?_⟩
    obtain ⟨x, hx, hequal⟩ := exists_of_forall₂ hforall (hperm.mem_iff.mpr hy)
    exact ⟨x, hx, (hsymm x hx y hy).2 hequal⟩

theorem WellBuilt.equal_symm (hb : WellBuilt hooks heap b)
    (hab : Equal hooks a b) : Equal hooks b a := by
  induction hsize : sizeOf a + sizeOf b using Nat.strongRecOn generalizing a b with
  | _ n ih =>
    rcases (ha.equal_iff hb).mp hab with rfl | hsim
    · exact hab
    · refine (hb.equal_iff ha).mpr (Or.inr (similar_symm ha hb ?_ hsim))
      intro x hx y hy
      have hxa := sizeOf_children_lt hx
      have hyb := sizeOf_children_lt hy
      have hwx := ha.of_mem_children hx
      have hwy := hb.of_mem_children hy
      exact ⟨fun h ↦ ih _ (by omega) hwx hwy h rfl, fun h ↦ ih _ (by omega) hwy hwx h rfl⟩

theorem WellBuilt.equal_refl : Equal hooks a a :=
  (ha.equal_iff ha).mpr (Or.inl rfl)

end

/-! ## Hashes -/

theorem WellBuilt.hashable (h : WellBuilt hooks heap v) :
    ∃ hash, hashObject hooks v = .ok hash := by
  have htuple : ∀ (items : List Value) (len : ℕ) (hash mult : BitVec 64),
      (∀ item ∈ items, ∃ hash, hashObject hooks item = .ok hash) →
        ∃ result, structuralTupleHash hooks len items hash mult = .ok result := by
    intro items len
    induction items with
    | nil => exact fun hash mult _ ↦ ⟨_, by rw [structuralTupleHash]⟩
    | cons item rest ih =>
      intro hash mult hitems
      obtain ⟨itemHash, hitem⟩ := hitems item (by simp)
      rw [structuralTupleHash, hitem]
      exact ih _ _ fun x hx ↦ hitems x (by simp [hx])
  have hset : ∀ (entries : List Value) (mixed : BitVec 64),
      (∀ entry ∈ entries, ∃ hash, hashObject hooks entry = .ok hash) →
        ∃ result, mixElementHashes hooks entries mixed = .ok result := by
    intro entries
    induction entries with
    | nil => exact fun mixed _ ↦ ⟨_, by rw [mixElementHashes]⟩
    | cons entry rest ih =>
      intro mixed hentries
      obtain ⟨entryHash, hentry⟩ := hentries entry (by simp)
      rw [mixElementHashes, hentry]
      exact ih _ fun x hx ↦ hentries x (by simp [hx])
  induction h with
  | @scalar v hscalar _ =>
    cases v <;> simp [Value.isContainer] at hscalar <;> rw [hashObject]
    case str => split <;> exact ⟨_, rfl⟩
    all_goals exact ⟨_, rfl⟩
  | @tuple _ items _ _ ih =>
    obtain ⟨result, hresult⟩ := htuple items items.length 0x345678#64 1000003#64 ih
    exact ⟨normalizeHash result, by rw [hashObject, hresult]; rfl⟩
  | @tupleSubclass _ _ items _ _ hhash _ ih =>
    obtain ⟨result, hresult⟩ := htuple items items.length 0x345678#64 1000003#64 ih
    exact ⟨normalizeHash result, by rw [hashObject, hhash]; simp only [hresult]; rfl⟩
  | @frozenset _ items entries _ _ hunique ih =>
    have hentries : ∀ entry ∈ entries, ∃ hash, hashObject hooks entry = .ok hash :=
      fun entry hentry ↦ ih entry (by simpa using mem_of_insertUniqueEntries hunique hentry)
    obtain ⟨result, hresult⟩ := hset entries 0#64 hentries
    exact ⟨_, by rw [hashObject, hresult]; rfl⟩

/-- Hash of a real number, from its key. -/
def realHash : RealKey → BitVec 64
  | .integer value => hashBigint value
  | .double value => hashF64 value

/-- Hash of a number, from the keys of its parts. -/
def keyHash (key : RealKey × RealKey) : BitVec 64 :=
  let hash := realHash key.1 + 1000003#64 * realHash key.2
  if hash = BitVec.ofInt 64 (-1) then BitVec.ofInt 64 (-2) else hash

theorem hashF64_eq_realHash {v : F64} {key : RealKey} (h : realKey v = some key) :
    hashF64 v = realHash key := by
  unfold realKey at h
  split at h
  · cases h
  · split at h
    · rename_i hint
      rw [← Option.some.inj h, realHash, hashF64_of_toInt? hint]
    · rw [← Option.some.inj h, realHash]

theorem hashBigint_ne_neg_one (n : ℤ) : hashBigint n ≠ BitVec.ofInt 64 (-1) :=
  signHash_ne_neg_one _ (Nat.mod_lt _ (by decide))

theorem realHash_ne_neg_one (key : RealKey) : realHash key ≠ BitVec.ofInt 64 (-1) := by
  cases key with
  | integer n => exact hashBigint_ne_neg_one n
  | double v => exact hashF64_ne_neg_one v

theorem keyHash_real (key : RealKey) : keyHash (key, .integer 0) = realHash key := by
  have hzero : realHash (.integer 0) = 0#64 := by decide
  have hsum : realHash key + 1000003#64 * realHash (.integer 0) = realHash key := by simp [hzero]
  unfold keyHash
  rw [hsum]
  exact if_neg (realHash_ne_neg_one key)

theorem hashObject_of_view_number {key : RealKey × RealKey} (h : view a = .number key) :
    hashObject hooks a = .ok (normalizeHash (keyHash key)) := by
  obtain ⟨real, imag⟩ := key
  cases a <;> simp only [view, numberView_eq_number_iff, reduceCtorEq] at h
  case float =>
    rw [hashObject, hashF64_eq_realHash h.1, ← Option.some.inj h.2, keyHash_real]
  case complex =>
    rw [hashObject, hashComplex, hashF64_eq_realHash h.1, hashF64_eq_realHash h.2, keyHash]
  all_goals
    obtain ⟨rfl, rfl⟩ := Prod.mk.inj (View.number.inj h)
    rw [hashObject, keyHash_real, realHash]

theorem structuralTupleHash_congr
    (h : List.Forall₂ (fun x y ↦ hashObject hooks x = hashObject hooks y) l r) (len : ℕ)
    (hash mult : BitVec 64) :
    structuralTupleHash hooks len l hash mult = structuralTupleHash hooks len r hash mult := by
  induction h generalizing hash mult with
  | nil => rfl
  | cons hxy _ ih =>
    rw [structuralTupleHash, structuralTupleHash, hxy]
    split
    · rfl
    · exact ih _ _

theorem WellBuilt.hashObject_of_view_sequence (ha : WellBuilt hooks heap a)
    (h : view a = .sequence items) :
    hashObject hooks a =
      (structuralTupleHash hooks items.length items 0x345678#64 1000003#64).map normalizeHash := by
  cases ha with
  | @scalar v hscalar _ =>
    cases a <;> simp [Value.isContainer, view, numberView] at hscalar h
    all_goals grind
  | tuple _ _ =>
    rw [← View.sequence.inj h, hashObject]
  | tupleSubclass _ _ hhash _ =>
    rw [← View.sequence.inj h, hashObject, hhash]
  | frozenset _ _ _ => simp [view] at h

/-- The hash of a hashable object. -/
def hashValue (hooks : Hooks) (x : Value) : BitVec 64 :=
  (hashObject hooks x).toOption.getD 0#64

theorem WellBuilt.hashObject_eq (h : WellBuilt hooks heap x) :
    hashObject hooks x = .ok (hashValue hooks x) := by
  obtain ⟨hash, hhash⟩ := h.hashable
  simp [hashValue, hhash, Except.toOption]

theorem mixElementHashes_eq_foldl (h : ∀ x ∈ entries, WellBuilt hooks heap x) (mixed : BitVec 64) :
    mixElementHashes hooks entries mixed =
      .ok ((entries.map (hashValue hooks)).foldl
        (fun mixed hash ↦ mixed ^^^ shuffleBits hash) mixed) := by
  induction entries generalizing mixed with
  | nil => rw [mixElementHashes, List.map_nil, List.foldl_nil]
  | cons x rest ih =>
    rw [mixElementHashes, (h x (by simp)).hashObject_eq, List.map_cons, List.foldl_cons]
    exact ih (fun y hy ↦ h y (by simp [hy])) _

/-- The mixed hash does not depend on the order of the entries. -/
theorem mixElementHashes_perm (hl : ∀ x ∈ l, WellBuilt hooks heap x)
    (hr : ∀ y ∈ r, WellBuilt hooks heap y)
    (hperm : (l.map (hashValue hooks)).Perm (r.map (hashValue hooks))) (mixed : BitVec 64) :
    mixElementHashes hooks l mixed = mixElementHashes hooks r mixed := by
  rw [mixElementHashes_eq_foldl hl, mixElementHashes_eq_foldl hr]
  congr 1
  apply hperm.foldl_eq'
  intro x _ y _ z
  rw [BitVec.xor_assoc, BitVec.xor_assoc, BitVec.xor_comm (shuffleBits x)]

theorem map_hashValue_eq (h : List.Forall₂ (fun x y ↦ hashObject hooks x = hashObject hooks y) l r) :
    l.map (hashValue hooks) = r.map (hashValue hooks) := by
  induction h with
  | nil => rfl
  | cons hxy _ ih => rw [List.map_cons, List.map_cons, ih, hashValue, hxy, ← hashValue]

theorem WellBuilt.hash_congr_of_similar (ha : WellBuilt hooks heap a) (hb : WellBuilt hooks heap b)
    (hchildren : ∀ x ∈ a.children, ∀ y ∈ b.children,
      Equal hooks x y → hashObject hooks x = hashObject hooks y)
    (hab : Similar (Equal hooks) (view a) (view b)) : hashObject hooks a = hashObject hooks b := by
  cases hva : view a <;> cases hvb : view b <;> simp only [hva, hvb, Similar] at hab
  case number => rw [hashObject_of_view_number hva, hashObject_of_view_number hvb, hab]
  case text =>
    cases a <;> simp [view, numberView] at hva <;> cases b <;> simp [view, numberView] at hvb
    case str.str => rw [hashObject, hashObject, hva, hab, ← hvb]
    all_goals grind
  case data =>
    cases a <;> simp [view, numberView] at hva <;> cases b <;> simp [view, numberView] at hvb
    case bytes.bytes => rw [hashObject, hashObject, hva, hab, ← hvb]
    all_goals grind
  case sequence l r =>
    rw [view_children (Or.inl hva), view_children (Or.inl hvb)] at hchildren
    rw [ha.hashObject_of_view_sequence hva, hb.hashObject_of_view_sequence hvb, hab.length_eq]
    congr 1
    apply structuralTupleHash_congr
    exact forall₂_imp_of_mem hab hchildren
  case set l r =>
    have hla : a.children = l := view_children (Or.inr hva)
    have hrb : b.children = r := view_children (Or.inr hvb)
    have hl : ∀ x ∈ l, WellBuilt hooks heap x := fun x hx ↦ ha.of_mem_children (hla ▸ hx)
    have hr : ∀ y ∈ r, WellBuilt hooks heap y := fun y hy ↦ hb.of_mem_children (hrb ▸ hy)
    rw [hla, hrb] at hchildren
    obtain ⟨addr, rfl⟩ := eq_frozenset_of_view hva
    obtain ⟨addr', rfl⟩ := eq_frozenset_of_view hvb
    obtain ⟨answers, hperm, hforall⟩ := exists_perm_of_similar_sets hl hr ha.pairwise
      (fun x hx y hy ↦ (hr y hy).equal_symm (hl x hx)) hab.1 hab.2
    have hhashes : List.Forall₂ (fun x y ↦ hashObject hooks x = hashObject hooks y) l answers := by
      apply forall₂_imp_of_mem hforall
      intro x hx y hy hyx
      have hyr : y ∈ r := hperm.mem_iff.mp hy
      exact hchildren x hx y hyr ((hr y hyr).equal_symm (hl x hx) hyx)
    have hmap : (l.map (hashValue hooks)).Perm (r.map (hashValue hooks)) :=
      map_hashValue_eq hhashes ▸ hperm.map _
    rw [hashObject, hashObject, mixElementHashes_perm hl hr hmap, hab.1]

/-- Equal objects have equal hashes. -/
theorem WellBuilt.hash_congr (ha : WellBuilt hooks heap a) (hb : WellBuilt hooks heap b)
    (hab : Equal hooks a b) :
    hashObject hooks a = hashObject hooks b := by
  induction hsize : sizeOf a + sizeOf b using Nat.strongRecOn generalizing a b with
  | _ n ih =>
    rcases (ha.equal_iff hb).mp hab with rfl | hsim
    · rfl
    · apply ha.hash_congr_of_similar hb _ hsim
      intro x hx y hy hxy
      have hxa := sizeOf_children_lt hx
      have hyb := sizeOf_children_lt hy
      exact ih _ (by omega) (ha.of_mem_children hx) (hb.of_mem_children hy) hxy rfl

/-! ## Insertion order -/

theorem exists_entry_of_item (hitems : ∀ item ∈ items, WellBuilt hooks heap item)
    (htarget : ∀ entry ∈ target, WellBuilt hooks heap entry)
    (h : insertUniqueEntries hooks target items = .ok entries) :
    (∀ x ∈ target, x ∈ entries) ∧ ∀ item ∈ items, ∃ entry ∈ entries, Equal hooks entry item := by
  induction items generalizing target with
  | nil =>
    rw [insertUniqueEntries] at h
    exact ⟨fun x hx ↦ Except.ok.inj h ▸ hx, by simp⟩
  | cons item rest ih =>
    have hitem := hitems item (by simp)
    have hrest : ∀ x ∈ rest, WellBuilt hooks heap x := fun x hx ↦ hitems x (by simp [hx])
    rcases insertUniqueEntries_cons hitem htarget h with ⟨⟨entry, hentry, hequal⟩, h⟩ | ⟨_, htarget', h⟩
    · obtain ⟨hkept, hothers⟩ := ih hrest htarget h
      refine ⟨hkept, fun x hx ↦ ?_⟩
      rcases List.mem_cons.mp hx with rfl | hmem
      · exact ⟨entry, hkept entry hentry, hequal⟩
      · exact hothers x hmem
    · obtain ⟨hkept, hothers⟩ := ih hrest htarget' h
      refine ⟨fun x hx ↦ hkept x (by simp [hx]), fun x hx ↦ ?_⟩
      rcases List.mem_cons.mp hx with rfl | hmem
      · exact ⟨x, hkept x (by simp), hitem.equal_refl⟩
      · exact hothers x hmem

/-- Frozensets built from the same items in different orders are equal. -/
theorem frozenset_equal_of_perm {addr' : ℕ} {items' entries' : List Value}
    (ha : heap addr = .frozenset addr entries) (hb : heap addr' = .frozenset addr' entries')
    (hitems : ∀ item ∈ items, WellBuilt hooks heap item) (hperm : items.Perm items')
    (hentries : uniqueEntries hooks items = .ok entries)
    (hentries' : uniqueEntries hooks items' = .ok entries') :
    Equal hooks (.frozenset addr entries) (.frozenset addr' entries') := by
  have hitems' : ∀ item ∈ items', WellBuilt hooks heap item :=
    fun item hitem ↦ hitems item (hperm.mem_iff.mpr hitem)
  have hwa : WellBuilt hooks heap (.frozenset addr entries) := .frozenset ha hitems hentries
  have hwb : WellBuilt hooks heap (.frozenset addr' entries') := .frozenset hb hitems' hentries'
  have hl : ∀ x ∈ entries, WellBuilt hooks heap x := fun x hx ↦ hwa.of_mem_children hx
  have hr : ∀ x ∈ entries', WellBuilt hooks heap x := fun x hx ↦ hwb.of_mem_children hx
  have hanswer : ∀ x ∈ entries, ∃ y ∈ entries', Equal hooks y x := by
    intro x hx
    have hmem : x ∈ items := by simpa using mem_of_insertUniqueEntries hentries hx
    exact (exists_entry_of_item hitems' (by simp) hentries').2 x (hperm.mem_iff.mp hmem)
  have hanswer' : ∀ y ∈ entries', ∃ x ∈ entries, Equal hooks x y := by
    intro y hy
    have hmem : y ∈ items' := by simpa using mem_of_insertUniqueEntries hentries' hy
    exact (exists_entry_of_item hitems (by simp) hentries).2 y (hperm.mem_iff.mpr hmem)
  have hseparate := separate_of_pairwise hwa.pairwise
    (fun x hx z hz ↦ (hr z hz).equal_symm (hl x hx))
    fun x hx z hz y hy ↦ (hl x hx).equal_trans (hr z hz) (hl y hy)
  have hseparate' := separate_of_pairwise hwb.pairwise
    (fun x hx z hz ↦ (hl z hz).equal_symm (hr x hx))
    fun x hx z hz y hy ↦ (hr x hx).equal_trans (hl z hz) (hr y hy)
  have hle := length_le_of_matching hseparate hanswer
  have hge := length_le_of_matching hseparate' hanswer'
  exact (hwa.equal_iff hwb).mpr (Or.inr ⟨Nat.le_antisymm hle hge, hanswer⟩)

end WellBuilt

/-- Whenever the structural comparison of two objects decides that they are equal, both have the
same hash, and frozensets built from the same items in different orders have the same hash. -/
theorem equal_objects_hash_alike (hooks : Hooks) (heap : ℕ → Value) :
    (∀ a b, WellBuilt hooks heap a → WellBuilt hooks heap b →
      objectEqualStructural hooks a b = some (.ok true) →
        ∃ hash, hashObject hooks a = .ok hash ∧ hashObject hooks b = .ok hash) ∧
    (∀ addr addr' items items' entries entries',
      heap addr = .frozenset addr entries → heap addr' = .frozenset addr' entries' →
      (∀ item ∈ items, WellBuilt hooks heap item) → items.Perm items' →
      uniqueEntries hooks items = .ok entries → uniqueEntries hooks items' = .ok entries' →
        ∃ hash, hashObject hooks (.frozenset addr entries) = .ok hash ∧
          hashObject hooks (.frozenset addr' entries') = .ok hash) := by
  have hcongr : ∀ a b, WellBuilt hooks heap a → WellBuilt hooks heap b → Equal hooks a b →
      ∃ hash, hashObject hooks a = .ok hash ∧ hashObject hooks b = .ok hash := by
    intro a b ha hb hab
    obtain ⟨hash, hhash⟩ := ha.hashable
    exact ⟨hash, hhash, ha.hash_congr hb hab ▸ hhash⟩
  refine ⟨hcongr, ?_⟩
  intro addr addr' items items' entries entries' ha hb hitems hperm hentries hentries'
  apply hcongr
  · exact .frozenset ha hitems hentries
  · exact .frozenset hb (fun item hitem ↦ hitems item (hperm.mem_iff.mpr hitem)) hentries'
  · exact frozenset_equal_of_perm ha hb hitems hperm hentries hentries'

/-- A subclass of `tuple` without hooks. -/
def pointClass : TupleClass where
  name := "Point"
  definesEq := false
  hashHook := none
  name_ok := by decide

/-- A subclass of `tuple` with a Python-level `__hash__`. -/
def taggedClass : TupleClass where
  name := "Tagged"
  definesEq := false
  hashHook := some (.function 0)
  name_ok := by decide

/-- Hooks in which every `__hash__` returns one and every `__eq__` answers no. -/
def constantHooks : Hooks where
  callHash _ _ := .ok (some 1)
  dispatchUserEq _ _ := .ok false

/-- The tuple `(2 ** 70,)` and the subclass instance `Point((2.0 ** 70,))`. -/
def pointHeap : ℕ → Value
  | 0 => .tuple 0 [.int 1 (2 ^ 70)]
  | 1 => .int 1 (2 ^ 70)
  | 2 => .tupleSubclass 2 pointClass [.float 3 0x4450000000000000#64]
  | _ => .float 3 0x4450000000000000#64

theorem equal_objects_hash_alike_point :
    ∃ hash, hashObject constantHooks (pointHeap 0) = .ok hash ∧
      hashObject constantHooks (pointHeap 2) = .ok hash := by
  have hint : WellBuilt constantHooks pointHeap (.int 1 (2 ^ 70)) :=
    .scalar rfl fun addr h ↦ by cases h; rfl
  have hfloat : WellBuilt constantHooks pointHeap (.float 3 0x4450000000000000#64) :=
    .scalar rfl fun addr h ↦ by cases h; rfl
  have hsimilar : Similar (Equal constantHooks) (view (.int 1 (2 ^ 70)))
      (view (.float 3 0x4450000000000000#64)) :=
    (numericObjectEqual_iff _ (by decide : numericObjectEqual _ _ = some true)).mp rfl
  have hequal := (hint.equal_iff hfloat).mpr (Or.inr hsimilar)
  have htuple : WellBuilt constantHooks pointHeap (pointHeap 0) := .tuple rfl (by simpa using hint)
  have hpoint : WellBuilt constantHooks pointHeap (pointHeap 2) :=
    .tupleSubclass rfl rfl rfl (by simpa using hfloat)
  apply (equal_objects_hash_alike constantHooks pointHeap).1 _ _ htuple hpoint
  exact (htuple.equal_iff hpoint).mpr (Or.inr (.cons hequal .nil))

/-- An instance of a tuple subclass with its own `__hash__` is equal to the plain tuple and hashes
differently. -/
theorem tagged_tuple_hash_differs :
    objectEqualStructural constantHooks (.tupleSubclass 0 taggedClass [.smallInt 1])
        (.tuple 1 [.smallInt 1]) = some (.ok true) ∧
      hashObject constantHooks (.tupleSubclass 0 taggedClass [.smallInt 1]) ≠
        hashObject constantHooks (.tuple 1 [.smallInt 1]) := by
  constructor
  · simp [objectEqualStructural.eq_def, slicesEqualStructural, zipEqual, Value.word, definesEq,
      taggedClass, numericObjectEqual, toBigintIncludingBool, toF64, toF64s, unicodeText,
      bytesPayloadSlice]
  · have htagged : hashObject constantHooks (.tupleSubclass 0 taggedClass [.smallInt 1]) =
        .ok 1#64 := rfl
    have hplain : hashObject constantHooks (.tuple 1 [.smallInt 1]) = .ok 3430019387558#64 := rfl
    rw [htagged, hplain]
    simp

end Pon.Hash
