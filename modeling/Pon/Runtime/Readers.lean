import Pon.Runtime.Integer
import Pon.Runtime.Object

/-!
# Integers behind their representations

The readers of integers see the same integer through an immediate, a boxed `int` and a wide one, but for
the truth test, which takes the inline payload of a wide integer for its value. They read no integer
from other objects, but for instances of classes that are called `int` or `bool`.
-/

namespace Pon.Object

open Number Ir

/-! ## Tags -/

/-- The integers that an immediate can hold. -/
def SmallInt (n : ℤ) : Prop := smallIntMin ≤ n ∧ n ≤ smallIntMax

theorem isSmallInt_tagSmallInt (v : BitVec 64) : isSmallInt (tagSmallInt v) = true := by
  have hbit : (tagSmallInt v &&& tagIntBit) = 1 := by
    apply BitVec.eq_of_getLsbD_eq
    intro i hi
    simp only [tagSmallInt, tagIntBit, BitVec.getLsbD_and, BitVec.getLsbD_or]
    cases BitVec.getLsbD 1 i <;> simp_all
  simp [isSmallInt, hbit]

theorem getLsbD_tagSmallInt_succ (v : BitVec 64) {i : ℕ} (hi : i < 63) :
    (tagSmallInt v).getLsbD (i + 1) = v.getLsbD i := by
  have hone : (1#64).getLsbD (i + 1) = false := by simp
  have hlt : i + 1 < 64 := by omega
  simp only [tagSmallInt, tagIntBit, BitVec.getLsbD_or, BitVec.getLsbD_shiftLeft]
  simp [hlt]

theorem untagSmallInt_tagSmallInt {v : BitVec 64} (h : SmallInt v.toInt) :
    (untagSmallInt (tagSmallInt v)).toInt = v.toInt := by
  have hsign : v.getLsbD 62 = v.msb := by
    have hnat := v.isLt
    unfold SmallInt smallIntMin smallIntMax at h
    rw [BitVec.toInt_eq_toNat_cond] at h
    rw [BitVec.msb_eq_getLsbD_last, BitVec.getLsbD, BitVec.getLsbD, Nat.testBit_eq_decide_div_mod_eq,
      Nat.testBit_eq_decide_div_mod_eq]
    congr 1
    split at h
    · rw [eq_iff_iff]
      omega
    · rw [eq_iff_iff]
      omega
  have hbits : (tagSmallInt v).sshiftRight 1 = v := by
    apply BitVec.eq_of_getLsbD_eq
    intro i hi
    rw [BitVec.getLsbD_sshiftRight, Nat.add_comm]
    by_cases hlast : i < 63
    · have hnext : i + 1 < 64 := by omega
      rw [if_pos hnext, getLsbD_tagSmallInt_succ v hlast]
      simp only [show ¬(64 ≤ i) by omega, decide_false, Bool.not_false, Bool.true_and]
    · have hi' : i = 63 := by omega
      subst hi'
      have htop := getLsbD_tagSmallInt_succ v (show 62 < 63 by omega)
      rw [BitVec.msb_eq_getLsbD_last] at hsign ⊢
      simp only [show ¬(63 + 1 < 64) by omega, if_false, show ¬(64 ≤ 63) by omega, decide_false,
        Bool.not_false, Bool.true_and]
      exact htop.trans hsign
  change ((tagSmallInt v).sshiftRight 1).toInt = v.toInt
  rw [hbits]

/-! ## Representations -/

/-- What holds of the types, the table of wide integers and the payloads of instances at any time. -/
structure Runtime.Valid (rt : Runtime) : Prop where
  long_name : (rt.types rt.longType).name = "int"
  long_basicsize : (rt.types rt.longType).basicsize = sizeOfPyLong
  long_mro : rt.longType ∈ (rt.types rt.longType).mro
  long_native : rt.nativeOfForeign rt.longType = none
  /-- An entry of the table is the payload of a boxed `int` that does not fit its inline payload. -/
  wide : ∀ p n, rt.bigInts p = some n → ¬ FitsI64 n ∧
    ∃ o, rt.deref p = some o ∧ o.obType = rt.longType ∧ o.value = 0
  /-- The payload of an instance is an instance of the built-in class that its class derives from. -/
  payload : ∀ p o, rt.deref p = some o → isPayloadSubclassInstance rt o = true → o.payload ≠ 0 →
    rt.longType ∉ (rt.types o.obType).mro →
    ∃ o', rt.deref o.payload = some o' ∧ (rt.types o'.obType).name ≠ "int"

/-- The objects that represent an integer. -/
inductive Represents (rt : Runtime) : Ptr → ℤ → Prop
  | immediate (v : BitVec 64) (h : SmallInt v.toInt) : Represents rt (tagSmallInt v) v.toInt
  | boxed (p : Ptr) (o : PyObject) (hderef : rt.deref p = some o) (htype : o.obType = rt.longType)
    (hinline : rt.bigInts p = none) : Represents rt p o.value.toInt
  | wide (p : Ptr) (n : ℤ) (htable : rt.bigInts p = some n) : Represents rt p n

/-- A boxed `int` whose payload is in the table. -/
def Wide (rt : Runtime) (p : Ptr) : Prop := (rt.bigInts p).isSome

section Readers

variable {rt : Runtime} {p : Ptr} {o : PyObject} {n : ℤ}

section

variable (h : rt.deref p = some o)
include h

theorem isSmallInt_eq_false_of_deref : isSmallInt p = false := by
  unfold Runtime.deref at h
  split at h
  · cases h
  · rename_i hheap
    simp only [not_or, Bool.not_eq_false] at hheap
    have hmask : p &&& tagMask = 0 := by simpa [isHeap] using hheap.2
    have hbit : p &&& tagIntBit = 0 := by
      have hand : p &&& tagIntBit = (p &&& tagMask) &&& tagIntBit := by
        rw [BitVec.and_assoc]
        rfl
      rw [hand, hmask]
      exact BitVec.zero_and
    simp [isSmallInt, hbit]

theorem typeNameIs_of_deref (expected : String) :
    typeNameIs rt p expected = ((rt.types o.obType).name == expected) := by
  simp [typeNameIs, isSmallInt_eq_false_of_deref h, h]

theorem inlineValue_of_deref : inlineValue rt p = o.value := by
  simp [inlineValue, h]

end

/-- What the readers need to know of a boxed `int`. -/
structure Boxed (rt : Runtime) (p : Ptr) (o : PyObject) : Prop where
  deref : rt.deref p = some o
  obType : o.obType = rt.longType

section Boxed

variable (hrt : rt.Valid) (h : Boxed rt p o)

include hrt h

theorem Boxed.isExactInt : isExactInt rt p = true := by
  rw [Object.isExactInt, typeNameIs_of_deref h.deref, h.obType, hrt.long_name]
  rfl

theorem Boxed.toBool : toBool rt p = none := by
  rw [Object.toBool, typeNameIs_of_deref h.deref, h.obType, hrt.long_name]
  rfl

theorem Boxed.payloadSubclassValue : payloadSubclassValue rt p = none := by
  have hsize : isPayloadSubclassInstance rt o = false := by
    rw [isPayloadSubclassInstance, h.obType, hrt.long_basicsize]
    simp [sizeOfPyLong, sizeOfPyPayloadSubclassInstance]
  simp [Object.payloadSubclassValue, h.deref, hsize]

theorem Boxed.isExactPylong : isExactPylong rt p = true := by
  simp [Object.isExactPylong, objectType, h.deref, h.obType, hrt.long_native, hrt.long_name,
    hrt.long_basicsize]

theorem Boxed.toBigint : toBigint rt p = some ((rt.bigInts p).getD o.value.toInt) := by
  rw [Object.toBigint, h.payloadSubclassValue hrt]
  simp only [isSmallInt_eq_false_of_deref h.deref, Bool.false_eq_true, if_false, Option.getD_none,
    boxedToBigint, h.isExactInt hrt, inlineValue_of_deref h.deref]
  cases rt.bigInts p <;> rfl

theorem Boxed.toI64 : toI64 rt p = (rt.bigInts p).elim (some o.value) checked := by
  rw [Object.toI64, h.payloadSubclassValue hrt]
  simp only [isSmallInt_eq_false_of_deref h.deref, Bool.false_eq_true, if_false, Option.getD_none,
    boxedToI64, h.isExactInt hrt, inlineValue_of_deref h.deref]
  cases rt.bigInts p <;> rfl

theorem Boxed.toExactInlineI64 : toExactInlineI64 rt p =
    if o.value = 0 ∧ (rt.bigInts p).isSome then none else some o.value := by
  simp [Object.toExactInlineI64, isSmallInt_eq_false_of_deref h.deref, h.isExactInt hrt,
    inlineValue_of_deref h.deref]

theorem Boxed.isTrue : isTrue rt p = some (if o.value ≠ 0 then 1 else 0) := by
  simp [Object.isTrue, isSmallInt_eq_false_of_deref h.deref, h.isExactPylong hrt,
    inlineValue_of_deref h.deref]

end Boxed

theorem checked_toInt (value : Int64) : checked value.toInt = some value := by
  rw [checked, if_pos (toInt_fits value), Int64.ofInt_toInt]

/-- The integer, as each reader gives it: the exact value, and the 64-bit value if there is one. -/
structure ReadAs (rt : Runtime) (p : Ptr) (n : ℤ) : Prop where
  bigint : toBigint rt p = some n
  bigint_including_bool : toBigintIncludingBool rt p = some n
  i64 : toI64 rt p = checked n
  i64_including_bool : toI64IncludingBool rt p = checked n
  exact_inline_i64 : toExactInlineI64 rt p = checked n
  exact_inline_i64_including_bool : toExactInlineI64IncludingBool rt p = checked n

theorem toBool_of_isSmallInt (h : isSmallInt p = true) : toBool rt p = none := by
  simp [toBool, typeNameIs, h]

theorem readAs_of_isSmallInt (h : isSmallInt p = true) (rt : Runtime) :
    ReadAs rt p (untagSmallInt p).toInt where
  bigint := by simp [toBigint, h]
  bigint_including_bool := by simp [toBigintIncludingBool, h]
  i64 := by simp [toI64, h, checked_toInt]
  i64_including_bool := by simp [toI64IncludingBool, h, checked_toInt]
  exact_inline_i64 := by simp [toExactInlineI64, h, checked_toInt]
  exact_inline_i64_including_bool := by
    simp [toExactInlineI64IncludingBool, toBool_of_isSmallInt h, toExactInlineI64, h, checked_toInt]

section

variable (hrt : rt.Valid)
include hrt

theorem Boxed.readAs (h : Boxed rt p o) :
    ReadAs rt p ((rt.bigInts p).getD o.value.toInt) := by
  have hsmall := isSmallInt_eq_false_of_deref h.deref
  have hbool := h.toBool hrt
  have hi64 : Object.toI64 rt p = checked ((rt.bigInts p).getD o.value.toInt) := by
    rw [h.toI64 hrt]
    cases rt.bigInts p with
    | none => exact (checked_toInt o.value).symm
    | some n => rfl
  have hinline : Object.toExactInlineI64 rt p = checked ((rt.bigInts p).getD o.value.toInt) := by
    rw [h.toExactInlineI64 hrt]
    cases htable : rt.bigInts p with
    | none => simp [checked_toInt]
    | some n =>
      obtain ⟨hfits, o', hderef, _, hzero⟩ := hrt.wide p n htable
      rw [h.deref, Option.some_inj] at hderef
      subst hderef
      simp [hzero, checked, hfits]
  exact {
    bigint := h.toBigint hrt
    bigint_including_bool := by
      simp [toBigintIncludingBool, hsmall, hbool, h.toBigint hrt]
    i64 := hi64
    i64_including_bool := by simp [toI64IncludingBool, hsmall, hbool, hi64]
    exact_inline_i64 := hinline
    exact_inline_i64_including_bool := by
      simp [toExactInlineI64IncludingBool, hbool, hinline] }

section

variable (h : Represents rt p n)
include h

/-- A representation is an immediate or a boxed `int`. -/
theorem Represents.cases :
    (isSmallInt p = true ∧ n = (untagSmallInt p).toInt ∧ rt.bigInts p = none) ∨
      ∃ o, Boxed rt p o ∧ n = (rt.bigInts p).getD o.value.toInt := by
  cases h with
  | immediate v hv =>
    refine .inl ⟨isSmallInt_tagSmallInt v, (untagSmallInt_tagSmallInt hv).symm, ?_⟩
    cases htable : rt.bigInts (tagSmallInt v) with
    | none => rfl
    | some n =>
      obtain ⟨_, o, hderef, _⟩ := hrt.wide _ n htable
      have hfalse := isSmallInt_eq_false_of_deref hderef
      rw [isSmallInt_tagSmallInt] at hfalse
      cases hfalse
  | boxed p o hderef htype hinline =>
    exact .inr ⟨o, ⟨hderef, htype⟩, by rw [hinline]; rfl⟩
  | wide p n htable =>
    obtain ⟨_, o, hderef, htype, _⟩ := hrt.wide p n htable
    exact .inr ⟨o, ⟨hderef, htype⟩, by rw [htable]; rfl⟩

theorem Represents.readAs : ReadAs rt p n := by
  rcases h.cases hrt with ⟨hsmall, rfl, _⟩ | ⟨o, hboxed, rfl⟩
  · exact readAs_of_isSmallInt hsmall rt
  · exact hboxed.readAs hrt

/-- The truth test is right but for a wide integer. -/
theorem Represents.isTrue_iff :
    (∃ t, isTrue rt p = some t ∧ (t = 0 ↔ n = 0)) ↔ ¬ Wide rt p := by
  rcases h.cases hrt with ⟨hsmall, rfl, hnone⟩ | ⟨o, hboxed, rfl⟩
  · have htruth : isTrue rt p = some (if untagSmallInt p ≠ 0 then 1 else 0) := by
      simp [isTrue, hsmall]
    refine iff_of_true ⟨_, htruth, ?_⟩ (by simp [Wide, hnone])
    rw [← eq_zero_iff]
    simp
  · rw [hboxed.isTrue hrt]
    cases htable : rt.bigInts p with
    | none =>
      refine iff_of_true ⟨_, rfl, ?_⟩ (by simp [Wide, htable])
      rw [Option.getD_none, ← eq_zero_iff]
      simp
    | some n =>
      obtain ⟨hfits, o', hderef, _, hzero⟩ := hrt.wide p n htable
      rw [hboxed.deref, Option.some_inj] at hderef
      subst hderef
      refine iff_of_false ?_ (by simp [Wide, htable])
      rintro ⟨t, ht, hiff⟩
      have ht0 : t = 0 := by simpa [hzero] using ht.symm
      apply hfits
      rw [Option.getD_some] at hiff
      rw [hiff.mp ht0]
      decide

theorem Represents.richNumericValue :
    ∃ value, richNumericValue rt p = some value ∧ value.value = n := by
  have hread := h.readAs hrt
  unfold Object.richNumericValue
  rw [hread.i64_including_bool, hread.bigint]
  by_cases hfits : FitsI64 n
  · exact ⟨.intI64 (Int64.ofInt n), by simp [checked, hfits], toInt_ofInt_of_fits hfits⟩
  · exact ⟨.int n, by simp [checked, hfits], rfl⟩

end

theorem Represents.richCompare {q : Ptr} {m : ℤ} (hp : Represents rt p m)
    (hq : Represents rt q n) (op : CmpOp) :
    richCompare rt op p q = some (richCompareOrdering op (compare m n)) := by
  obtain ⟨left, hleft, rfl⟩ := hp.richNumericValue hrt
  obtain ⟨right, hright, rfl⟩ := hq.richNumericValue hrt
  unfold Object.richCompare
  rw [hleft, hright]
  cases left <;> cases right <;> rfl

end

/-! ## Other objects -/

/-- No reader reports a value. -/
structure Unread (rt : Runtime) (p : Ptr) : Prop where
  bigint : toBigint rt p = none
  bigint_including_bool : toBigintIncludingBool rt p = none
  i64 : toI64 rt p = none
  i64_including_bool : toI64IncludingBool rt p = none
  exact_inline_i64 : toExactInlineI64 rt p = none
  exact_inline_i64_including_bool : toExactInlineI64IncludingBool rt p = none

/-- The class of an object derives from the built-in `int`. -/
def DerivesFromInt (rt : Runtime) (o : PyObject) : Prop :=
  rt.longType ∈ (rt.types o.obType).mro

theorem typeNameIs_of_not_deref (hsmall : isSmallInt p = false) (h : rt.deref p = none)
    (expected : String) : typeNameIs rt p expected = false := by
  simp [typeNameIs, hsmall, h]

variable (hrt : rt.Valid) (hsmall : isSmallInt p = false)
  (hother : ∀ o, rt.deref p = some o → ¬ DerivesFromInt rt o)
include hrt hsmall hother

/-- The payload of an instance of another class is no integer. -/
theorem payload_not_int (hname : ∀ o, rt.deref p = some o → (rt.types o.obType).name ≠ "int") :
    isSmallInt ((payloadSubclassValue rt p).getD p) = false ∧
      isExactInt rt ((payloadSubclassValue rt p).getD p) = false := by
  cases hderef : rt.deref p with
  | none =>
    have hnone : payloadSubclassValue rt p = none := by simp [payloadSubclassValue, hderef]
    rw [hnone]
    exact ⟨hsmall, typeNameIs_of_not_deref hsmall hderef "int"⟩
  | some o =>
    by_cases hpayload : isPayloadSubclassInstance rt o = true ∧ o.payload ≠ 0
    · obtain ⟨o', hderef', hname'⟩ := hrt.payload p o hderef hpayload.1 hpayload.2 (hother o hderef)
      have hsome : payloadSubclassValue rt p = some o.payload := by
        simpa [payloadSubclassValue, hderef, hpayload.1] using hpayload.2
      rw [hsome]
      refine ⟨isSmallInt_eq_false_of_deref hderef', ?_⟩
      rw [isExactInt, Option.getD_some, typeNameIs_of_deref hderef']
      simpa using hname'
    · have hnone : payloadSubclassValue rt p = none := by
        simp only [payloadSubclassValue, hderef]
        rw [if_neg]
        simpa using hpayload
      rw [hnone]
      refine ⟨hsmall, ?_⟩
      rw [isExactInt, Option.getD_none, typeNameIs_of_deref hderef]
      simpa using hname o hderef

/-- Objects of other classes are read as integers only by the name of their class. -/
theorem unread_iff :
    Unread rt p ↔ ∀ o, rt.deref p = some o →
      (rt.types o.obType).name ≠ "int" ∧ (rt.types o.obType).name ≠ "bool" := by
  constructor
  · intro hunread o hderef
    constructor
    · intro hname
      have hinline : toExactInlineI64 rt p ≠ none := by
        have hexact : isExactInt rt p = true := by
          rw [isExactInt, typeNameIs_of_deref hderef, hname]
          rfl
        have hno : rt.bigInts p = none := by
          cases htable : rt.bigInts p with
          | none => rfl
          | some n =>
            obtain ⟨_, o', hderef', htype, _⟩ := hrt.wide p n htable
            rw [hderef, Option.some_inj] at hderef'
            subst hderef'
            have hderives : DerivesFromInt rt o := by
              rw [DerivesFromInt, htype]
              exact hrt.long_mro
            exact absurd hderives (hother o hderef)
        simp [toExactInlineI64, hsmall, hexact, hno]
      exact hinline hunread.exact_inline_i64
    · intro hname
      have hbool : toBool rt p = some (inlineBool rt p) := by
        rw [toBool, typeNameIs_of_deref hderef, hname]
        rfl
      have hread := hunread.exact_inline_i64_including_bool
      rw [toExactInlineI64IncludingBool, hbool] at hread
      cases hread
  · intro hnames
    obtain ⟨hpayload, hexact'⟩ := payload_not_int hrt hsmall hother fun o h ↦ (hnames o h).1
    have hname : ∀ expected, (∀ o, rt.deref p = some o → (rt.types o.obType).name ≠ expected) →
        typeNameIs rt p expected = false := by
      intro expected hne
      cases hderef : rt.deref p with
      | none => exact typeNameIs_of_not_deref hsmall hderef expected
      | some o =>
        rw [typeNameIs_of_deref hderef]
        simpa using hne o hderef
    have hexact : isExactInt rt p = false := hname "int" fun o h ↦ (hnames o h).1
    have hbool : toBool rt p = none := by
      simp [toBool, hname "bool" fun o h ↦ (hnames o h).2]
    have hbigint : toBigint rt p = none := by
      simp [toBigint, hsmall, boxedToBigint, hpayload, hexact']
    have hi64 : toI64 rt p = none := by simp [toI64, hsmall, boxedToI64, hpayload, hexact']
    have hinline : toExactInlineI64 rt p = none := by simp [toExactInlineI64, hsmall, hexact]
    exact {
      bigint := hbigint
      bigint_including_bool := by simp [toBigintIncludingBool, hsmall, hbool, hbigint]
      i64 := hi64
      i64_including_bool := by simp [toI64IncludingBool, hsmall, hbool, hi64]
      exact_inline_i64 := hinline
      exact_inline_i64_including_bool := by
        simp [toExactInlineI64IncludingBool, hbool, hinline] }

end Readers

/-! ## Allocation -/

/-- The allocator hands out addresses of heap objects at which there is none. -/
def LawfulAllocator (alloc : Allocator) : Prop :=
  ∀ rt p, alloc rt = some p → p ≠ 0 ∧ isHeap p = true ∧ rt.heap p = none

/-- New objects have come, and the others and their payloads are as they were. -/
structure Extends (rt rt' : Runtime) : Prop where
  types : rt'.types = rt.types
  nativeOfForeign : rt'.nativeOfForeign = rt.nativeOfForeign
  longType : rt'.longType = rt.longType
  deref : ∀ q o, rt.deref q = some o → rt'.deref q = some o
  bigInts : ∀ q o, rt.deref q = some o → rt'.bigInts q = rt.bigInts q

theorem Extends.refl (rt : Runtime) : Extends rt rt :=
  ⟨rfl, rfl, rfl, fun _ _ h ↦ h, fun _ _ _ ↦ rfl⟩

theorem Extends.trans {rt rt' rt'' : Runtime} (h : Extends rt rt') (h' : Extends rt' rt'') :
    Extends rt rt'' where
  types := h'.types.trans h.types
  nativeOfForeign := h'.nativeOfForeign.trans h.nativeOfForeign
  longType := h'.longType.trans h.longType
  deref q o hq := h'.deref q o (h.deref q o hq)
  bigInts q o hq := (h'.bigInts q o (h.deref q o hq)).trans (h.bigInts q o hq)

theorem Extends.represents {rt rt' : Runtime} (hrt : rt.Valid) (h : Extends rt rt') {p : Ptr} {n : ℤ}
    (hp : Represents rt p n) : Represents rt' p n := by
  cases hp with
  | immediate v hv => exact .immediate v hv
  | boxed p o hderef htype hinline =>
    exact .boxed p o (h.deref p o hderef) (htype.trans h.longType.symm)
      ((h.bigInts p o hderef).trans hinline)
  | wide p n htable =>
    obtain ⟨_, o, hderef, _⟩ := hrt.wide p n htable
    exact .wide p n ((h.bigInts p o hderef).trans htable)

section Allocation

variable {alloc : Allocator} {rt rt' : Runtime} {p : Ptr}

/-- A new boxed `int`, with a payload in the table if its inline payload is zero. -/
def Runtime.place (rt : Runtime) (p : Ptr) (value : Int64) (payload : Option ℤ) : Runtime :=
  { rt with
    heap := Function.update rt.heap p (some { obType := rt.longType, value, payload := 0 })
    bigInts := Function.update rt.bigInts p payload }

theorem deref_place_self (hp : p ≠ 0 ∧ isHeap p = true) (value : Int64) (payload : Option ℤ) :
    (rt.place p value payload).deref p = some { obType := rt.longType, value, payload := 0 } := by
  have hnot : ¬(p = 0 ∨ isHeap p = false) := by
    rintro (hzero | hheap)
    · exact hp.1 hzero
    · rw [hp.2] at hheap
      cases hheap
  rw [Runtime.deref, if_neg hnot]
  exact Function.update_self _ _ _

theorem deref_place_of_ne {q : Ptr} (hq : q ≠ p) (value : Int64) (payload : Option ℤ) :
    (rt.place p value payload).deref q = rt.deref q := by
  simp [Runtime.deref, Runtime.place, Function.update_of_ne hq]

theorem extends_place (hfree : rt.heap p = none) (value : Int64) (payload : Option ℤ) :
    Extends rt (rt.place p value payload) := by
  have hne : ∀ q o, rt.deref q = some o → q ≠ p := by
    rintro q o hq rfl
    unfold Runtime.deref at hq
    rw [hfree] at hq
    split at hq <;> cases hq
  refine ⟨rfl, rfl, rfl, fun q o hq ↦ ?_, fun q o hq ↦ ?_⟩
  · rw [deref_place_of_ne (hne q o hq), hq]
  · exact Function.update_of_ne (hne q o hq) _ _

variable {value : Int64} {n : ℤ} {a b : Ptr}

theorem place_valid (hrt : rt.Valid) (hp : p ≠ 0 ∧ isHeap p = true) (hfree : rt.heap p = none)
    {payload : Option ℤ} (hpayload : ∀ n, payload = some n → ¬ FitsI64 n ∧ value = 0) :
    (rt.place p value payload).Valid where
  long_name := hrt.long_name
  long_basicsize := hrt.long_basicsize
  long_mro := hrt.long_mro
  long_native := hrt.long_native
  wide q n htable := by
    by_cases hq : q = p
    · subst hq
      have hsome : payload = some n := by
        simpa [Runtime.place] using htable
      obtain ⟨hfits, hzero⟩ := hpayload n hsome
      exact ⟨hfits, _, deref_place_self hp value payload, rfl, hzero⟩
    · have hold : rt.bigInts q = some n := by
        simpa [Runtime.place, Function.update_of_ne hq] using htable
      obtain ⟨hfits, o, hderef, htype, hzero⟩ := hrt.wide q n hold
      exact ⟨hfits, o, by rw [deref_place_of_ne hq, hderef], htype, hzero⟩
  payload q o hq hinstance hne hother := by
    by_cases hqp : q = p
    · subst hqp
      rw [deref_place_self hp, Option.some_inj] at hq
      subst hq
      exact absurd rfl hne
    · rw [deref_place_of_ne hqp] at hq
      obtain ⟨o', hderef, hname⟩ := hrt.payload q o hq hinstance hne hother
      exact ⟨o', (extends_place hfree value payload).deref _ o' hderef, hname⟩

/-- The result of an allocation: a new object that represents the integer. -/
structure Allocated (rt : Runtime) (p : Ptr) (rt' : Runtime) (n : ℤ) : Prop where
  represents : Represents rt' p n
  boxed : ∃ o, Boxed rt' p o
  valid : rt'.Valid
  extends_ : Extends rt rt'

theorem boxedConstInt_allocated (halloc : LawfulAllocator alloc) (hrt : rt.Valid)
    (h : boxedConstInt alloc rt value = some (p, rt')) : Allocated rt p rt' value.toInt := by
  unfold boxedConstInt allocLong at h
  simp only [Option.bind_eq_bind, Option.bind_eq_some_iff, Option.pure_def, Option.some.injEq,
    Prod.mk.injEq] at h
  obtain ⟨q, hq, rfl, hrt'⟩ := h
  obtain ⟨hne, hheap, hfree⟩ := halloc rt q hq
  have hnone : rt.bigInts q = none := by
    cases htable : rt.bigInts q with
    | none => rfl
    | some n =>
      obtain ⟨_, o, hderef, _⟩ := hrt.wide q n htable
      unfold Runtime.deref at hderef
      rw [hfree] at hderef
      split at hderef <;> cases hderef
  have hplace : rt' = rt.place q value none := by
    rw [← hrt', Runtime.place, ← hnone, Function.update_eq_self]
  subst hplace
  have hderef : (rt.place q value none).deref q = _ := deref_place_self ⟨hne, hheap⟩ value none
  refine ⟨?_, ⟨_, hderef, rfl⟩, place_valid hrt ⟨hne, hheap⟩ hfree (by simp), extends_place hfree _ _⟩
  exact .boxed q _ hderef rfl (by simp [Runtime.place])

theorem fromBigint_allocated (halloc : LawfulAllocator alloc) (hrt : rt.Valid)
    (h : fromBigint alloc rt n = some (p, rt')) : Allocated rt p rt' n := by
  unfold fromBigint checked at h
  by_cases hfits : FitsI64 n
  · rw [if_pos hfits] at h
    have hallocated := boxedConstInt_allocated halloc hrt h
    rwa [toInt_ofInt_of_fits hfits] at hallocated
  · rw [if_neg hfits] at h
    simp only [Option.bind_eq_bind, Option.bind_eq_some_iff, Option.pure_def, Option.some.injEq,
      Prod.mk.injEq] at h
    obtain ⟨⟨template, rt₁⟩, htemplate, q, hq, rfl, hrt'⟩ := h
    have hfirst := boxedConstInt_allocated halloc hrt htemplate
    obtain ⟨o, hboxed⟩ := hfirst.boxed
    obtain ⟨hne, hheap, hfree⟩ := halloc rt₁ q hq
    have hplace : rt' = rt₁.place q 0 (some n) := by
      rw [← hrt', Runtime.place, hboxed.deref, Option.map_some, Option.getD_some, hboxed.obType]
    subst hplace
    have hderef : (rt₁.place q 0 (some n)).deref q = _ := deref_place_self ⟨hne, hheap⟩ 0 (some n)
    refine ⟨.wide q n (by simp [Runtime.place]), ⟨_, hderef, rfl⟩,
      place_valid hfirst.valid ⟨hne, hheap⟩ hfree ?_, hfirst.extends_.trans (extends_place hfree _ _)⟩
    rintro m ⟨⟩
    exact ⟨hfits, rfl⟩

/-! ## Addition -/

/-- An addition gives a new object for the sum, and fails only if an allocation does. -/
def Added.Gives (alloc : Allocator) (rt : Runtime) (n : ℤ) : Added → Prop
  | .value p rt' => Allocated rt p rt' n
  | .noMemory => ∃ rt', alloc rt' = none
  | .dispatch _ => False

theorem boxedConstInt_eq_none (h : boxedConstInt alloc rt value = none) : alloc rt = none := by
  cases halloc : alloc rt with
  | none => rfl
  | some p => simp [boxedConstInt, allocLong, halloc] at h

theorem fromBigint_eq_none (h : fromBigint alloc rt n = none) : ∃ rt', alloc rt' = none := by
  unfold fromBigint at h
  split at h
  · exact ⟨_, boxedConstInt_eq_none h⟩
  · cases hfirst : boxedConstInt alloc rt 0 with
    | none => exact ⟨_, boxedConstInt_eq_none hfirst⟩
    | some result =>
      cases hsecond : alloc result.2 with
      | none => exact ⟨_, hsecond⟩
      | some p => simp [hfirst, hsecond] at h

theorem addBoxed_gives (halloc : LawfulAllocator alloc) (hrt : rt.Valid) {left right : PyObject}
    (ha : Boxed rt a left) (hb : Boxed rt b right) :
    (addBoxed alloc rt a b).Gives alloc rt
      ((rt.bigInts a).getD left.value.toInt + (rt.bigInts b).getD right.value.toInt) := by
  have hinline : ∀ {q : Ptr} {o : PyObject}, Boxed rt q o → o.value ≠ 0 → rt.bigInts q = none := by
    intro q o hq hne
    cases htable : rt.bigInts q with
    | none => rfl
    | some n =>
      obtain ⟨_, o', hderef, _, hzero⟩ := hrt.wide q n htable
      rw [hq.deref, Option.some_inj] at hderef
      exact absurd (hderef ▸ hzero) hne
  simp only [addBoxed, ha.isExactPylong hrt, hb.isExactPylong hrt, Bool.and_self, if_true,
    inlineValue_of_deref ha.deref, inlineValue_of_deref hb.deref, ha.toBigint hrt, hb.toBigint hrt]
  split
  · rename_i sum hsum
    split at hsum
    · rename_i hne
      rw [hinline ha hne.1, hinline hb hne.2, Option.getD_none, Option.getD_none]
      unfold checked at hsum
      split at hsum
      · rename_i hfits
        cases hsum
        cases hbox : boxedConstInt alloc rt (Int64.ofInt (left.value.toInt + right.value.toInt)) with
        | none => exact ⟨rt, boxedConstInt_eq_none hbox⟩
        | some result =>
          have hallocated := boxedConstInt_allocated halloc hrt hbox
          rwa [toInt_ofInt_of_fits hfits] at hallocated
      · cases hsum
    · cases hsum
  · cases hbig : fromBigint alloc rt _ with
    | none => exact fromBigint_eq_none hbig
    | some result => exact fromBigint_allocated halloc hrt hbig

/-- Boxing an immediate, and leaving another object alone, gives a boxed `int` for the same integer. -/
theorem untagArg_boxed (halloc : LawfulAllocator alloc) (hrt : rt.Valid) (ha : Represents rt a n)
    {result : Ptr × Runtime} (h : untagArg alloc rt a = some result) :
    Represents result.2 result.1 n ∧ (∃ o, Boxed result.2 result.1 o) ∧ result.2.Valid ∧
      Extends rt result.2 := by
  unfold untagArg at h
  rcases ha.cases hrt with ⟨hsmall, rfl, _⟩ | ⟨o, hboxed, _⟩
  · rw [if_pos hsmall] at h
    have hallocated := boxedConstInt_allocated halloc hrt h
    exact ⟨hallocated.represents, hallocated.boxed, hallocated.valid, hallocated.extends_⟩
  · rw [if_neg (by simp [isSmallInt_eq_false_of_deref hboxed.deref])] at h
    cases h
    exact ⟨ha, ⟨o, hboxed⟩, hrt, Extends.refl rt⟩

theorem Added.Gives.of_extends {rt₁ : Runtime} {added : Added} (h : Extends rt rt₁)
    (hgives : added.Gives alloc rt₁ n) : added.Gives alloc rt n := by
  cases added with
  | value p rt' => exact ⟨hgives.represents, hgives.boxed, hgives.valid, h.trans hgives.extends_⟩
  | noMemory => exact hgives
  | dispatch rt' => exact hgives

section

variable {m : ℤ} (halloc : LawfulAllocator alloc) (hrt : rt.Valid) (ha : Represents rt a m)
  (hb : Represents rt b n)
include halloc hrt ha hb

theorem Represents.addBoxed_gives  (hsmall : isSmallInt a = false)
    (hsmall' : isSmallInt b = false) : (addBoxed alloc rt a b).Gives alloc rt (m + n) := by
  rcases ha.cases hrt with ⟨htrue, _⟩ | ⟨left, hleft, rfl⟩
  · rw [hsmall] at htrue
    cases htrue
  rcases hb.cases hrt with ⟨htrue, _⟩ | ⟨right, hright, rfl⟩
  · rw [hsmall'] at htrue
    cases htrue
  exact Object.addBoxed_gives halloc hrt hleft hright

theorem Represents.binaryAdd_gives :
    (binaryAdd alloc rt a b).Gives alloc rt (m + n) := by
  unfold binaryAdd
  split
  · cases hleft : untagArg alloc rt a with
    | none =>
      unfold untagArg at hleft
      split at hleft
      · exact ⟨rt, boxedConstInt_eq_none hleft⟩
      · cases hleft
    | some left =>
      obtain ⟨hrep, ⟨o, hboxed⟩, hvalid, hextends⟩ := untagArg_boxed halloc hrt ha hleft
      cases hright : untagArg alloc left.2 b with
      | none =>
        simp only [hright]
        unfold untagArg at hright
        split at hright
        · exact ⟨left.2, boxedConstInt_eq_none hright⟩
        · cases hright
      | some right =>
        simp only [hright]
        obtain ⟨hrep', ⟨o', hboxed'⟩, hvalid', hextends'⟩ :=
          untagArg_boxed halloc hvalid (hextends.represents hrt hb) hright
        refine Added.Gives.of_extends (hextends.trans hextends') ?_
        exact (hextends'.represents hvalid hrep).addBoxed_gives halloc hvalid' hrep'
          (isSmallInt_eq_false_of_deref (hextends'.deref _ _ hboxed.deref))
          (isSmallInt_eq_false_of_deref hboxed'.deref)
  · rename_i hneither
    simp only [Bool.or_eq_true, not_or, Bool.not_eq_true] at hneither
    exact ha.addBoxed_gives halloc hrt hb hneither.1 hneither.2

end

/-- An integer is seen through its representation. -/
def SeenAs (rt : Runtime) (p : Ptr) (n : ℤ) : Prop :=
  ReadAs rt p n ∧ ∃ t, isTrue rt p = some t ∧ (t = 0 ↔ n = 0)

/-- Every reader sees the integer through each representation, exactly if the object is not wide;
addition and comparison do for all combinations; and other objects are not read, exactly if their
class is not called `int` or `bool`. -/
theorem representation_independent_iff (halloc : LawfulAllocator alloc) (hrt : rt.Valid) :
    (∀ p n, Represents rt p n → (SeenAs rt p n ↔ ¬ Wide rt p)) ∧
    (∀ a b m n, Represents rt a m → Represents rt b n →
      (binaryAdd alloc rt a b).Gives alloc rt (m + n) ∧
      ∀ op, richCompare rt op a b = some (richCompareOrdering op (compare m n))) ∧
    (∀ p, isSmallInt p = false → (∀ o, rt.deref p = some o → ¬ DerivesFromInt rt o) →
      (Unread rt p ↔ ∀ o, rt.deref p = some o →
        (rt.types o.obType).name ≠ "int" ∧ (rt.types o.obType).name ≠ "bool")) := by
  refine ⟨fun p n hp ↦ ?_, fun a b m n ha hb ↦ ?_, fun p hsmall hother ↦ ?_⟩
  · rw [SeenAs, hp.isTrue_iff hrt]
    exact and_iff_right (hp.readAs hrt)
  · exact ⟨ha.binaryAdd_gives halloc hrt hb, ha.richCompare hrt hb⟩
  · exact unread_iff hrt hsmall hother

end Allocation

/-! ## A heap -/

/-- A boxed 5 at 16, a wide integer at 32, and at 48 an instance of a class that is called `int` and
derives from `object` only. -/
def threeObjects : Runtime where
  types ty :=
    if ty = 0 then { name := "int", basicsize := 24, isHeapInstance := false, mro := [0] }
    else { name := "int", basicsize := 64, isHeapInstance := true, mro := [1] }
  nativeOfForeign _ := none
  longType := 0
  heap p :=
    if p = 16 then some { obType := 0, value := 5, payload := 0 }
    else if p = 32 then some { obType := 0, value := 0, payload := 0 }
    else if p = 48 then some { obType := 1, value := 4096, payload := 0 }
    else none
  bigInts p := if p = 32 then some (2 ^ 64) else none

theorem threeObjects_valid : threeObjects.Valid where
  long_name := rfl
  long_basicsize := rfl
  long_mro := by decide
  long_native := rfl
  wide p n htable := by
    change (if p = 32 then some (2 ^ 64) else none) = some n at htable
    split at htable
    · rename_i hp
      subst hp
      cases htable
      exact ⟨by decide, _, rfl, rfl, rfl⟩
    · cases htable
  payload p o hderef _ hne _ := by
    unfold Runtime.deref at hderef
    split at hderef
    · cases hderef
    · simp only [threeObjects] at hderef
      split_ifs at hderef
      all_goals
        cases hderef
        exact absurd rfl hne

/-- The next object comes to 64, if there is none. -/
def nextAt64 : Allocator := fun rt ↦ if rt.heap 64 = none then some 64 else none

theorem nextAt64_lawful : LawfulAllocator nextAt64 := by
  intro rt p h
  unfold nextAt64 at h
  split at h
  · rename_i hfree
    cases h
    exact ⟨by decide, by decide, hfree⟩
  · cases h

theorem threeObjects_independent : SeenAs threeObjects 16 5 ∧
    (binaryAdd nextAt64 threeObjects 16 32).Gives nextAt64 threeObjects (5 + 2 ^ 64) ∧
    richCompare threeObjects .lt 16 32 = some (.bool true) := by
  obtain ⟨hseen, hpair, _⟩ := representation_independent_iff nextAt64_lawful threeObjects_valid
  have hvalue : (5 : Int64).toInt = 5 := by decide
  have hfive : Represents threeObjects 16 5 :=
    hvalue ▸ .boxed 16 { obType := 0, value := 5, payload := 0 } rfl rfl rfl
  have hwide : Represents threeObjects 32 (2 ^ 64) := .wide 32 _ rfl
  refine ⟨(hseen 16 5 hfive).mpr (by unfold Wide; decide), (hpair 16 32 5 _ hfive hwide).1, ?_⟩
  rw [(hpair 16 32 5 _ hfive hwide).2 .lt]
  rfl

/-- The truth test takes 2^64 for false, and an instance of a class called `int` is read as the integer
in its second word. -/
theorem threeObjects_misread : threeObjects.Valid ∧
    (Represents threeObjects 32 (2 ^ 64) ∧ isTrue threeObjects 32 = some 0) ∧
    (∃ o, threeObjects.deref 48 = some o ∧ ¬ DerivesFromInt threeObjects o) ∧
    toBigint threeObjects 48 = some 4096 ∧ toExactInlineI64 threeObjects 48 = some 4096 := by
  refine ⟨threeObjects_valid, ⟨.wide 32 _ rfl, by decide⟩, ⟨_, rfl, ?_⟩, by decide, by decide⟩
  unfold DerivesFromInt
  decide

end Pon.Object
