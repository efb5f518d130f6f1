import Mathlib.Algebra.Group.Nat.Defs
import Mathlib.Data.Vector.Defs

/-!
# Regular expression code

The words of a compiled pattern, as the engine names them, and the tree that the engine runs.
-/

namespace Pon.Sre

/-- A `u32` of the code. The decoder widens a word to `usize` before it computes with it. -/
abbrev Word := ℕ

/-- The opcodes, without those that only the stdlib's own trees use. -/
inductive Opcode
  | failure | success | any | anyAll | assert | assertNot | at_ | branch | category | charset
  | bigCharset | groupRef | groupRefExists | in_ | info | jump | literal | mark | maxUntil | minUntil
  | notLiteral | negate | range | repeat_ | repeatOne | minRepeatOne | atomicGroup | possessiveRepeat
  | possessiveRepeatOne | groupRefIgnore | inIgnore | literalIgnore | notLiteralIgnore
  | groupRefLocIgnore | inLocIgnore | literalLocIgnore | notLiteralLocIgnore | groupRefUniIgnore
  | inUniIgnore | literalUniIgnore | notLiteralUniIgnore | rangeUniIgnore
deriving DecidableEq

namespace Opcode

def word : Opcode → Word
  | failure => 0
  | success => 1
  | any => 2
  | anyAll => 3
  | assert => 4
  | assertNot => 5
  | at_ => 6
  | branch => 7
  | category => 8
  | charset => 9
  | bigCharset => 10
  | groupRef => 11
  | groupRefExists => 12
  | in_ => 13
  | info => 14
  | jump => 15
  | literal => 16
  | mark => 17
  | maxUntil => 18
  | minUntil => 19
  | notLiteral => 20
  | negate => 21
  | range => 22
  | repeat_ => 23
  | repeatOne => 24
  | minRepeatOne => 26
  | atomicGroup => 27
  | possessiveRepeat => 28
  | possessiveRepeatOne => 29
  | groupRefIgnore => 30
  | inIgnore => 31
  | literalIgnore => 32
  | notLiteralIgnore => 33
  | groupRefLocIgnore => 34
  | inLocIgnore => 35
  | literalLocIgnore => 36
  | notLiteralLocIgnore => 37
  | groupRefUniIgnore => 38
  | inUniIgnore => 39
  | literalUniIgnore => 40
  | notLiteralUniIgnore => 41
  | rangeUniIgnore => 42

def all : List Opcode :=
  [failure, success, any, anyAll, assert, assertNot, at_, branch, category, charset, bigCharset,
    groupRef, groupRefExists, in_, info, jump, literal, mark, maxUntil, minUntil, notLiteral, negate,
    range, repeat_, repeatOne, minRepeatOne, atomicGroup, possessiveRepeat, possessiveRepeatOne,
    groupRefIgnore, inIgnore, literalIgnore, notLiteralIgnore, groupRefLocIgnore, inLocIgnore,
    literalLocIgnore, notLiteralLocIgnore, groupRefUniIgnore, inUniIgnore, literalUniIgnore,
    notLiteralUniIgnore, rangeUniIgnore]

def ofWord (word : Word) : Option Opcode :=
  all.find? fun opcode ↦ opcode.word == word

@[simp]
theorem ofWord_word (opcode : Opcode) : ofWord opcode.word = some opcode := by
  cases opcode <;> rfl

theorem ofWord_eq_some {w : Word} {opcode : Opcode} : ofWord w = some opcode ↔ w = opcode.word := by
  constructor
  · intro h
    have hfound := List.find?_some h
    exact (eq_of_beq hfound).symm
  · rintro rfl
    exact ofWord_word opcode

theorem word_injective {a b : Opcode} (h : a.word = b.word) : a = b := by
  have hword := ofWord_word a
  rw [h, ofWord_word] at hword
  exact (Option.some.inj hword).symm

/-- The opcodes at which `parse_sequence` breaks. -/
def stops : Opcode → Bool
  | success | failure | jump | maxUntil | minUntil => true
  | _ => false

end Opcode

inductive CaseMode
  | exact | ascii | locale | unicode
deriving DecidableEq

inductive RepeatKind
  | greedy | lazy | possessive
deriving DecidableEq

/-- The word that stands for no upper bound. -/
def maxRepeat : Word := 2 ^ 32 - 1

/-- An upper bound of a repeat that a word can say. -/
abbrev Bound := {count : ℕ // count ≠ maxRepeat}

/-- An item of a set. A bitmap has eight words; a big charset has a word for the number of blocks,
64 words that map the high bytes and eight words for each block. -/
inductive SetItem
  | literal (value : Word)
  | range (start stop : Word)
  | rangeUnicodeIgnore (start stop : Word)
  | bitmap (words : List.Vector Word 8)
  | bigCharset (blocks : ℕ) (words : List.Vector Word (64 + blocks * 8))
  | category (category : Word)

structure Charset where
  items : List SetItem
  negated : Bool

inductive Node
  | literal (value : Word) (case : CaseMode)
  | notLiteral (value : Word) (case : CaseMode)
  | any (all : Bool)
  | at_ (position : Word)
  | in_ (set : Charset) (case : CaseMode)
  | mark (index : ℕ)
  | groupRef (group : ℕ) (case : CaseMode)
  | groupRefExists (group : ℕ) (yes no : List Node)
  | branch (branches : List (List Node))
  | repeat_ (body : List Node) (min : ℕ) (max : Option Bound) (kind : RepeatKind)
  | assert (positive : Bool) (width : ℕ) (body : List Node)
  | atomic (body : List Node)

/-- The errors of the decoder. -/
inductive Error
  | truncated (pc needed : ℕ)
  | invalidOpcode (pc : ℕ) (opcode : Word)
  | invalidSkip (pc : ℕ) (skip : Word)
  | unsupportedOpcode (pc : ℕ) (opcode : Word)
deriving DecidableEq

end Pon.Sre
