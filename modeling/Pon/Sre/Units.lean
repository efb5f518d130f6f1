import Mathlib.Data.Nat.Bitwise
import Pon.Sre.Code

/-!
# Units and positions

What the engine reads from a subject: its units, which are the code points of a string or the bytes of
a byte string, compared under a case mode, looked up in a set, and tested at a position.
-/

namespace Pon.Sre

/-- What the engine asks about characters: the first characters of their lowercase and uppercase
mappings, and their classes. -/
structure CharTable where
  toLowercase : Char → Char
  toUppercase : Char → Char
  isNumeric : Char → Bool
  isWhitespace : Char → Bool
  isAlphanumeric : Char → Bool

structure MatchState where
  pos : ℕ
  marks : List (Option ℕ)
  lastindex : Option ℕ
deriving DecidableEq

/-- A unit that is a Unicode scalar value is a character. -/
def charFromU32 (unit : Word) : Option Char :=
  if unit.isValidChar then some (Char.ofNat unit) else none

variable (table : CharTable) (subject : List Word)

def foldUnit (unit : Word) : CaseMode → Word
  | .exact => unit
  | .ascii | .locale => if 'A'.toNat ≤ unit ∧ unit ≤ 'Z'.toNat then unit + 32 else unit
  | .unicode => (charFromU32 unit).elim unit fun c ↦ (table.toLowercase c).toNat

def matchesLiteral (unit : Option Word) (value : Word) (case : CaseMode) : Bool :=
  unit.any fun actual ↦ foldUnit table actual case == foldUnit table value case

def isAsciiDigit (unit : Word) : Bool :=
  '0'.toNat ≤ unit ∧ unit ≤ '9'.toNat

def isAsciiWord (unit : Word) : Bool :=
  isAsciiDigit unit || ('a'.toNat ≤ unit ∧ unit ≤ 'z'.toNat) || ('A'.toNat ≤ unit ∧ unit ≤ 'Z'.toNat) ||
    unit == '_'.toNat

def isAsciiSpace (unit : Word) : Bool :=
  unit ∈ [9, 10, 11, 12, 13, 32]

def isUnicodeLinebreak (unit : Word) : Bool :=
  unit ∈ [10, 11, 12, 13, 0x85, 0x2028, 0x2029]

def isUnicodeDigit (unit : Word) : Bool :=
  (charFromU32 unit).any table.isNumeric

def isUnicodeSpace (unit : Word) : Bool :=
  (charFromU32 unit).any table.isWhitespace

def isUnicodeWord (unit : Word) : Bool :=
  (charFromU32 unit).any fun c ↦ c == '_' || table.isAlphanumeric c

/-- The categories by their codes; an unknown one matches nothing. -/
def categoryMatches (category unit : Word) : Bool :=
  match category with
  | 0 => isAsciiDigit unit
  | 1 => !isAsciiDigit unit
  | 2 => isAsciiSpace unit
  | 3 => !isAsciiSpace unit
  | 4 | 8 => isAsciiWord unit
  | 5 | 9 => !isAsciiWord unit
  | 6 => unit == 10
  | 7 => unit != 10
  | 10 => isUnicodeDigit table unit
  | 11 => !isUnicodeDigit table unit
  | 12 => isUnicodeSpace table unit
  | 13 => !isUnicodeSpace table unit
  | 14 => isUnicodeWord table unit
  | 15 => !isUnicodeWord table unit
  | 16 => isUnicodeLinebreak unit
  | 17 => !isUnicodeLinebreak unit
  | _ => false

def bitmapContains (words : List.Vector Word 8) (unit : ℕ) : Bool :=
  if h : unit < 256 then (words.get ⟨unit / 32, by omega⟩).testBit (unit % 32) else false

/-- A big charset finds the block of a unit by its high byte. -/
def bigcharsetContains (blocks : ℕ) (words : List.Vector Word (64 + blocks * 8)) (unit : ℕ) : Bool :=
  if h : unit < 65536 then
    let high := unit / 256
    have hhigh : high / 4 < 64 + blocks * 8 := by omega
    let mapWord := words.get ⟨high / 4, hhigh⟩
    let block : ℕ := mapWord / 2 ^ (high % 4 * 8) % 256
    if hblock : block < blocks then
      let low := unit % 256
      have hlow : 64 + block * 8 + low / 32 < 64 + blocks * 8 := by omega
      (words.get ⟨64 + block * 8 + low / 32, hlow⟩).testBit (low % 32)
    else false
  else false

def SetItem.matches (item : SetItem) (unit : Word) (case : CaseMode) : Bool :=
  match item with
  | .literal value => foldUnit table unit case == foldUnit table value case
  | .range start stop =>
      (foldUnit table start case ≤ foldUnit table unit case ∧
        foldUnit table unit case ≤ foldUnit table stop case) || (start ≤ unit ∧ unit ≤ stop)
  | .rangeUnicodeIgnore start stop =>
      let lower := foldUnit table unit .unicode
      let upper := (charFromU32 unit).elim unit fun c ↦ (table.toUppercase c).toNat
      (start ≤ lower ∧ lower ≤ stop) || (start ≤ upper ∧ upper ≤ stop) || (start ≤ unit ∧ unit ≤ stop)
  | .bitmap words => bitmapContains words (foldUnit table unit case)
  | .bigCharset blocks words => bigcharsetContains blocks words (foldUnit table unit case)
  | .category code => categoryMatches table code unit

def Charset.matches (set : Charset) (unit : Word) (case : CaseMode) : Bool :=
  let matched := set.items.any fun item ↦ item.matches table unit case
  if set.negated then !matched else matched

/-- A word character for the boundaries; those of the Unicode codes know all letters. -/
def wordForBoundary (position : Word) (unit : Option Word) : Bool :=
  unit.any fun unit ↦
    if position = 10 ∨ position = 11 then categoryMatches table 14 unit else categoryMatches table 4 unit

def boundary (pos : ℕ) (position : Word) : Bool :=
  let before := if pos = 0 then none else subject[pos - 1]?
  wordForBoundary table position before != wordForBoundary table position subject[pos]?

/-- The tests of positions by their codes; an unknown one fails. -/
def atMatches (position : Word) (pos : ℕ) : Bool :=
  match position with
  | 0 | 2 => pos == 0
  | 1 => pos == 0 || subject[pos - 1]? == some 10
  | 5 => pos == subject.length || (pos + 1 == subject.length && subject[pos]? == some 10)
  | 6 => pos == subject.length || subject[pos]? == some 10
  | 7 => pos == subject.length
  | 3 | 8 | 10 => boundary table subject pos position
  | 4 | 9 | 11 => !boundary table subject pos position
  | _ => false

variable (state : MatchState)

def MatchState.mark (index : ℕ) : Option ℕ :=
  (state.marks[index]?).join

def groupIsMatched (group : ℕ) : Bool :=
  (state.mark (group * 2)).isSome && (state.mark (group * 2 + 1)).isSome

/-- The state after the text of a group, if it is there again. -/
def matchGroupRef (group : ℕ) (case : CaseMode) : Option MatchState := do
  let start ← state.mark (group * 2)
  let stop ← state.mark (group * 2 + 1)
  if stop < start then none
  else
    let len := stop - start
    if state.pos + len > subject.length then none
    else if (List.range len).all fun offset ↦ (subject[start + offset]?).any fun expected ↦
        (subject[state.pos + offset]?).any fun actual ↦
          foldUnit table expected case == foldUnit table actual case then
      some { state with pos := state.pos + len }
    else none

/-- Sets a mark; the end of a group is its last index. -/
def MatchState.setMark (index : ℕ) : MatchState :=
  if index < state.marks.length then
    { state with
      marks := state.marks.set index (some state.pos)
      lastindex := if index % 2 = 1 then some (index / 2 + 1) else state.lastindex }
  else state

/-- Reads one unit. -/
def MatchState.advance : MatchState :=
  { state with pos := state.pos + 1 }

end Pon.Sre
