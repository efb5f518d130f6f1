import Mathlib.Data.List.TakeWhile
import Mathlib.Algebra.BigOperators.Group.List.Basic
import Mathlib.Algebra.GroupWithZero.Nat
import Pon.Lib.Effect

/-!
# Formats of binary records

A format is a prefix for the byte order and the sizes, and items with a repeat count. Parsing lays the
items out one behind the other, in native mode at positions of their alignment, and checks the counts and
the size for unsigned overflow. Other arithmetic that overflows ends the operation, as it does in builds
with overflow checks.
-/

namespace Pon.Struct

inductive Failure
  | raised (message : String)
  | panicked
deriving DecidableEq

/-- The result of checked arithmetic on unsigned words. -/
def checked (value : ℕ) (message : String) : Except Failure ℕ :=
  if value < 2 ^ 64 then .ok value else .error (.raised message)

/-- The result of arithmetic on unsigned words. -/
def usize (value : ℕ) : Except Failure ℕ := if value < 2 ^ 64 then .ok value else .error .panicked

/-- The size and the alignment of a type. -/
structure CType where
  size : ℕ
  align : ℕ
  size_pos : 0 < size
  size_le : size ≤ 8
  align_pos : 0 < align

/-- What the format codes take from the platform. -/
structure Platform where
  little : Bool
  short : CType
  int : CType
  long : CType
  longlong : CType
  word : CType
  floatAlign : ℕ
  doubleAlign : ℕ
  floatAlign_pos : 0 < floatAlign
  doubleAlign_pos : 0 < doubleAlign

/-- A little-endian 64-bit Unix. -/
def lp64 : Platform where
  little := true
  short := ⟨2, 2, by decide, by decide, by decide⟩
  int := ⟨4, 4, by decide, by decide, by decide⟩
  long := ⟨8, 8, by decide, by decide, by decide⟩
  longlong := ⟨8, 8, by decide, by decide, by decide⟩
  word := ⟨8, 8, by decide, by decide, by decide⟩
  floatAlign := 4
  doubleAlign := 8
  floatAlign_pos := by decide
  doubleAlign_pos := by decide

inductive Kind
  | pad | signed | unsigned | bool | char | str | pascal | float | complex
deriving DecidableEq

structure Item where
  code : Char
  kind : Kind
  count : ℕ
  size : ℕ
  padBefore : ℕ
deriving DecidableEq

structure Format where
  little : Bool
  items : List Item
  size : ℕ
  argCount : ℕ
deriving DecidableEq

/-- The kind, the size and the alignment of an integer code in native and in standard mode. -/
def integerSpec (kind : Kind) (native : Bool) (type : CType) (standard : ℕ) : Kind × ℕ × ℕ :=
  if native then (kind, type.size, type.align) else (kind, standard, 1)

def codeSpec (platform : Platform) (code : Char) (native : Bool) : Option (Kind × ℕ × ℕ) :=
  match code with
  | 'x' => some (.pad, 1, 1)
  | 'b' => some (.signed, 1, 1)
  | 'B' => some (.unsigned, 1, 1)
  | 'c' => some (.char, 1, 1)
  | 's' => some (.str, 1, 1)
  | 'p' => some (.pascal, 1, 1)
  | '?' => some (.bool, 1, 1)
  | 'h' => some (integerSpec .signed native platform.short 2)
  | 'H' => some (integerSpec .unsigned native platform.short 2)
  | 'i' => some (integerSpec .signed native platform.int 4)
  | 'I' => some (integerSpec .unsigned native platform.int 4)
  | 'l' => some (integerSpec .signed native platform.long 4)
  | 'L' => some (integerSpec .unsigned native platform.long 4)
  | 'q' => some (integerSpec .signed native platform.longlong 8)
  | 'Q' => some (integerSpec .unsigned native platform.longlong 8)
  | 'n' => if native then some (.signed, platform.word.size, platform.word.align) else none
  | 'N' => if native then some (.unsigned, platform.word.size, platform.word.align) else none
  | 'P' => if native then some (.unsigned, platform.word.size, platform.word.align) else none
  | 'e' => some (.float, 2, if native then 2 else 1)
  | 'f' => some (.float, 4, if native then platform.floatAlign else 1)
  | 'd' => some (.float, 8, if native then platform.doubleAlign else 1)
  | 'F' => some (.complex, 8, 1)
  | 'D' => some (.complex, 16, 1)
  | _ => none

/-- The mode, the byte order and the items of a format. -/
def splitPrefix (platform : Platform) (fmt : List Char) : Bool × Bool × List Char :=
  match fmt with
  | '@' :: body => (true, platform.little, body)
  | '=' :: body => (false, platform.little, body)
  | '<' :: body => (false, true, body)
  | '>' :: body => (false, false, body)
  | '!' :: body => (false, false, body)
  | body => (true, platform.little, body)

def isAsciiWhitespace (ch : Char) : Bool :=
  ch = ' ' ∨ ch = '\t' ∨ ch = '\n' ∨ ch = '\x0C' ∨ ch = '\r'

def isAsciiDigit (ch : Char) : Bool := '0' ≤ ch ∧ ch ≤ '9'

def countMessage : String := "overflow in item count"

def sizeMessage : String := "total struct size too long"

def parseDigit (value : ℕ) (digit : Char) : Except Failure ℕ := do
  let value ← checked (value * 10) countMessage
  checked (value + (digit.toNat - '0'.toNat)) countMessage

def parseCount (digits : List Char) : Except Failure ℕ := digits.foldlM parseDigit 0

structure Layout where
  items : List Item := []
  pos : ℕ := 0
  argCount : ℕ := 0

/-- The padding in front of a position that is not aligned. -/
def padTo (pos align : ℕ) : ℕ := if pos % align = 0 then 0 else align - pos % align

def fieldBytes (kind : Kind) (count size : ℕ) : Except Failure ℕ :=
  match kind with
  | .str | .pascal | .pad => .ok count
  | _ => checked (count * size) sizeMessage

/-- The number of arguments of an item. -/
def argumentCount (kind : Kind) (count : ℕ) : ℕ :=
  match kind with
  | .pad => 0
  | .str | .pascal => 1
  | _ => count

/-- Appends the item of a code. -/
def Layout.push (layout : Layout) (platform : Platform) (native : Bool) (code : Char) (count : ℕ) :
    Except Failure Layout :=
  match codeSpec platform code native with
  | none => .error (.raised "bad char in struct format")
  | some (kind, size, align) => do
    let padBefore := padTo layout.pos (if native then align else 1)
    let pos ← checked (layout.pos + padBefore) sizeMessage
    let bytes ← fieldBytes kind count size
    let pos ← checked (pos + bytes) sizeMessage
    let argCount ← usize (layout.argCount + argumentCount kind count)
    .ok { items := layout.items ++ [{ code, kind, count, size, padBefore }], pos, argCount }

def parseItems (platform : Platform) (native : Bool) (body : List Char) (layout : Layout) :
    Except Failure Layout :=
  match body with
  | [] => .ok layout
  | ch :: rest =>
    if isAsciiWhitespace ch then parseItems platform native rest layout
    else if isAsciiDigit ch then do
      let count ← parseCount (ch :: rest.takeWhile isAsciiDigit)
      match _found : rest.dropWhile isAsciiDigit with
      | [] => .error (.raised "repeat count given without format specifier")
      | code :: tail => do
        let layout ← layout.push platform native code count
        parseItems platform native tail layout
    else do
      let layout ← layout.push platform native ch 1
      parseItems platform native rest layout
termination_by body.length
decreasing_by
  · exact Nat.lt_succ_self _
  · have shorter := (List.dropWhile_sublist isAsciiDigit (l := rest)).length_le
    rw [_found, List.length_cons] at shorter
    exact Nat.lt_succ_of_lt shorter
  · exact Nat.lt_succ_self _

def parseFormat (platform : Platform) (fmt : List Char) : Except Failure Format := do
  let layout ← parseItems platform (splitPrefix platform fmt).1 (splitPrefix platform fmt).2.2 {}
  .ok { little := (splitPrefix platform fmt).2.1, items := layout.items, size := layout.pos,
        argCount := layout.argCount }

/-- The size that goes with a kind. -/
def Kind.Sized : Kind → ℕ → Prop
  | .signed, size | .unsigned, size => 0 < size ∧ size ≤ 8
  | .float, size => size = 2 ∨ size = 4 ∨ size = 8
  | .complex, size => size = 8 ∨ size = 16
  | _, size => size = 1

/-- The bytes of an item without the padding in front of it. -/
def Item.bytes (item : Item) : ℕ :=
  match item.kind with
  | .str | .pascal | .pad => item.count
  | _ => item.count * item.size

def Item.extent (item : Item) : ℕ := item.padBefore + item.bytes

def Item.arguments (item : Item) : ℕ := argumentCount item.kind item.count

structure WellFormed (items : List Item) (size argCount : ℕ) : Prop where
  sized : ∀ item ∈ items, item.kind.Sized item.size
  size_eq : size = (items.map Item.extent).sum
  size_lt : size < 2 ^ 64
  argCount_eq : argCount = (items.map Item.arguments).sum

variable {kind : Kind} {code : Char} {value result count : ℕ} {layout : Layout}

theorem integerSpec_sized (integer : kind = .signed ∨ kind = .unsigned) (native : Bool)
    (type : CType) {standard : ℕ} (valid : 0 < standard ∧ standard ≤ 8) :
    (integerSpec kind native type standard).1.Sized (integerSpec kind native type standard).2.1 := by
  have sized (size : ℕ) (valid : 0 < size ∧ size ≤ 8) : kind.Sized size := by
    obtain rfl | rfl := integer <;> exact valid
  unfold integerSpec
  split_ifs
  · exact sized type.size ⟨type.size_pos, type.size_le⟩
  · exact sized standard valid

variable {platform : Platform} {native : Bool}

theorem codeSpec_sized {spec : Kind × ℕ × ℕ} (found : codeSpec platform code native = some spec) :
    spec.1.Sized spec.2.1 := by
  have word := And.intro platform.word.size_pos platform.word.size_le
  unfold codeSpec at found
  split at found
  case h_16 | h_17 | h_18 =>
    split_ifs at found
    obtain rfl := Option.some.inj found
    exact word
  case h_24 => exact nomatch found
  all_goals obtain rfl := Option.some.inj found
  case h_8 | h_10 | h_12 | h_14 => exact integerSpec_sized (Or.inl rfl) native _ (by decide)
  case h_9 | h_11 | h_13 | h_15 => exact integerSpec_sized (Or.inr rfl) native _ (by decide)
  case h_2 | h_3 => exact ⟨Nat.one_pos, by decide⟩
  case h_19 => exact Or.inl rfl
  case h_20 => exact Or.inr (Or.inl rfl)
  case h_21 => exact Or.inr (Or.inr rfl)
  case h_22 => exact Or.inl rfl
  case h_23 => exact Or.inr rfl
  all_goals exact rfl

theorem eq_of_checked {message : String} (ok : checked value message = .ok result) :
    result = value ∧ value < 2 ^ 64 := by
  unfold checked at ok
  split_ifs at ok with fits
  exact ⟨(Except.ok.inj ok).symm, fits⟩

theorem eq_of_usize (ok : usize value = .ok result) : result = value := by
  unfold usize at ok
  split_ifs at ok
  exact (Except.ok.inj ok).symm

theorem fieldBytes_ok {size bytes : ℕ} (ok : fieldBytes kind count size = .ok bytes) (code : Char)
    (padBefore : ℕ) : bytes = Item.bytes ⟨code, kind, count, size, padBefore⟩ := by
  unfold fieldBytes at ok
  unfold Item.bytes
  cases kind
  case str | pascal | pad => exact (Except.ok.inj ok).symm
  all_goals exact (eq_of_checked ok).1

def Layout.Valid (layout : Layout) : Prop := WellFormed layout.items layout.pos layout.argCount

theorem Layout.push_valid {next : Layout} (valid : layout.Valid)
    (ok : layout.push platform native code count = .ok next) : next.Valid := by
  unfold Layout.push at ok
  split at ok
  · exact nomatch ok
  · rename_i kind size align found
    obtain ⟨aligned, isAligned, ok⟩ := Effect.ok_of_bind ok
    obtain ⟨bytes, isBytes, ok⟩ := Effect.ok_of_bind ok
    obtain ⟨pos, isPos, ok⟩ := Effect.ok_of_bind ok
    obtain ⟨argCount, isArgCount, ok⟩ := Effect.ok_of_bind ok
    obtain rfl := Except.ok.inj ok
    obtain ⟨rfl, -⟩ := eq_of_checked isAligned
    obtain ⟨rfl, bound⟩ := eq_of_checked isPos
    obtain rfl := eq_of_usize isArgCount
    obtain rfl := fieldBytes_ok isBytes code (padTo layout.pos (if native then align else 1))
    refine ⟨?_, ?_, bound, ?_⟩
    · intro item member
      obtain member | member := List.mem_append.mp member
      · exact valid.sized item member
      · obtain rfl := List.mem_singleton.mp member
        exact codeSpec_sized found
    · rw [List.map_append, List.sum_append, ← valid.size_eq, List.map_singleton, List.sum_singleton,
        Item.extent, Nat.add_assoc]
    · rw [List.map_append, List.sum_append, ← valid.argCount_eq, List.map_singleton, List.sum_singleton]
      rfl

theorem parseItems_valid {body : List Char} {result : Layout} (valid : layout.Valid)
    (ok : parseItems platform native body layout = .ok result) : result.Valid := by
  fun_induction parseItems platform native body layout with
  | case1 layout =>
    obtain rfl := Except.ok.inj ok
    exact valid
  | case2 layout ch rest space ih => exact ih valid ok
  | case3 layout ch rest notSpace digit ih =>
    obtain ⟨count, counted, ok⟩ := Effect.ok_of_bind ok
    split at ok
    · exact nomatch ok
    · rename_i code tail found
      obtain ⟨next, pushed, ok⟩ := Effect.ok_of_bind ok
      exact ih code tail found next (Layout.push_valid valid pushed) ok
  | case4 layout ch rest notSpace notDigit ih =>
    obtain ⟨next, pushed, ok⟩ := Effect.ok_of_bind ok
    exact ih next (Layout.push_valid valid pushed) ok

/-- The items of a format fill its size, and take as many arguments as it counts. -/
theorem parseFormat_wellFormed {fmt : List Char} {format : Format}
    (ok : parseFormat platform fmt = .ok format) :
    WellFormed format.items format.size format.argCount := by
  obtain ⟨layout, parsed, ok⟩ := Effect.ok_of_bind ok
  obtain rfl := Except.ok.inj ok
  have empty : WellFormed [] 0 0 :=
    { sized := List.forall_mem_nil _, size_eq := rfl, size_lt := Nat.two_pow_pos 64,
      argCount_eq := rfl }
  have initial : Layout.Valid {} := empty
  exact parseItems_valid initial parsed

end Pon.Struct
