import Pon.Lib.Decoding
import Pon.Sre.Code

/-!
# The decoder

`Program::parse` and what it calls. The words end up in a `usize`, a slice has fewer than `2 ^ 61`
words and a word is below `2 ^ 32`, so the sums of the code fit and its overflow checks never fire:
they are left out. The recursive functions take fuel; `Sre.Totality` shows that it suffices.
-/

namespace Pon.Sre

open Decoding

abbrev Parse (α : Type) := Decoder Error α

def need (code : List Word) (pc needed : ℕ) : Parse Unit :=
  if pc + needed ≤ code.length then pure () else fail (.truncated pc needed)

def checkedSkipEnd (pc : ℕ) (skip : Word) : ℕ :=
  pc + 1 + skip

def maxOf (value : Word) : Option Bound :=
  if h : value = maxRepeat then none else some ⟨value, h⟩

def literalCase : Opcode → CaseMode
  | .literalIgnore | .notLiteralIgnore => .ascii
  | .literalLocIgnore | .notLiteralLocIgnore => .locale
  | .literalUniIgnore | .notLiteralUniIgnore => .unicode
  | _ => .exact

def inCase : Opcode → CaseMode
  | .inIgnore => .ascii
  | .inLocIgnore => .locale
  | .inUniIgnore => .unicode
  | _ => .exact

def groupRefCase : Opcode → CaseMode
  | .groupRefIgnore => .ascii
  | .groupRefLocIgnore => .locale
  | .groupRefUniIgnore => .unicode
  | _ => .exact

/-- The item of a set at `pc`, and the position after it. -/
def parseSetItem (code : List Word) (pc : ℕ) (op : Word) : Opcode → Parse (SetItem × ℕ)
  | .literal => do
    need code pc 2
    let value ← read code (pc + 1)
    pure (.literal value, pc + 2)
  | .range => do
    need code pc 3
    let start ← read code (pc + 1)
    let stop ← read code (pc + 2)
    pure (.range start stop, pc + 3)
  | .rangeUniIgnore => do
    need code pc 3
    let start ← read code (pc + 1)
    let stop ← read code (pc + 2)
    pure (.rangeUnicodeIgnore start stop, pc + 3)
  | .charset => do
    need code pc 9
    let words ← slice code (pc + 1) 8
    pure (.bitmap words, pc + 9)
  | .bigCharset => do
    need code pc 2
    let blocks ← read code (pc + 1)
    need code pc (2 + 64 + blocks * 8)
    let words ← slice code (pc + 2) (64 + blocks * 8)
    pure (.bigCharset blocks words, pc + (2 + 64 + blocks * 8))
  | .category => do
    need code pc 2
    let category ← read code (pc + 1)
    pure (.category category, pc + 2)
  | _ => fail (.invalidOpcode pc op)

def parseCharset (code : List Word) : ℕ → ℕ → ℕ → Charset → Parse Charset
  | 0, _, _, _ => .error .outOfFuel
  | fuel + 1, pc, stop, set =>
    if pc < stop then do
      let op ← read code pc
      match Opcode.ofWord op with
      | some .failure => pure set
      | some .negate => parseCharset code fuel (pc + 1) stop { set with negated := !set.negated }
      | some opcode => do
        let (item, next) ← parseSetItem code pc op opcode
        parseCharset code fuel next stop { set with items := set.items ++ [item] }
      | none => fail (.invalidOpcode pc op)
    else pure set

/-! ## Nodes

The functions below take `parse_sequence` as `sequence`. -/

section Nodes

variable (code : List Word) (sequence : ℕ → ℕ → Parse (List Node × ℕ)) (pc : ℕ)

/-- The operand of an opcode with one operand. -/
def operand : Parse Word := do
  need code pc 2
  read code (pc + 1)

/-- The end of a block whose skip word follows its opcode. -/
def blockEnd : Parse ℕ := do
  let skip ← read code (pc + 1)
  if code.length < checkedSkipEnd pc skip then fail (.invalidSkip (pc + 1) skip)
  else pure (checkedSkipEnd pc skip)

def parseIn (fuel pc : ℕ) (case : CaseMode) : Parse (Node × ℕ) := do
  need code pc 2
  let next ← blockEnd code pc
  let set ← parseCharset code fuel (pc + 2) next { items := [], negated := false }
  pure (.in_ set case, next)

def parseAssert (positive : Bool) : Parse (Node × ℕ) := do
  need code pc 3
  let next ← blockEnd code pc
  let (body, _) ← sequence (pc + 3) (next - 1)
  let width ← read code (pc + 2)
  pure (.assert positive width body, next)

/-- The repeats of a single unit, whose body ends with SUCCESS before the end of the block. -/
def parseRepeatOne (kind : RepeatKind) : Parse (Node × ℕ) := do
  need code pc 4
  let next ← blockEnd code pc
  let (body, _) ← sequence (pc + 4) (next - 1)
  let min ← read code (pc + 2)
  let max ← read code (pc + 3)
  pure (.repeat_ body min (maxOf max) kind, next)

/-- The kind of a repeat, by the opcode after its block. -/
def untilKind (until_ : ℕ) : Parse RepeatKind := do
  let op ← read code until_
  match Opcode.ofWord op with
  | some .maxUntil => pure .greedy
  | some .minUntil => pure .lazy
  | _ => fail (.invalidOpcode until_ op)

/-- `code[next] != SUCCESS` of a possessive repeat. -/
def successKind (next : ℕ) : Parse RepeatKind := do
  let op ← read code next
  if op = Opcode.success.word then pure .possessive else fail (.invalidOpcode next op)

/-- The other repeats, whose last word follows the block; `kindAt` looks at it. -/
def parseRepeat (kindAt : ℕ → Parse RepeatKind) : Parse (Node × ℕ) := do
  need code pc 4
  let skip ← read code (pc + 1)
  let until_ := checkedSkipEnd pc skip
  if code.length ≤ until_ then fail (.invalidSkip (pc + 1) skip)
  else do
    let kind ← kindAt until_
    let (body, _) ← sequence (pc + 4) until_
    let min ← read code (pc + 2)
    let max ← read code (pc + 3)
    pure (.repeat_ body min (maxOf max) kind, until_ + 1)

def parseAtomic : Parse (Node × ℕ) := do
  need code pc 2
  let next ← blockEnd code pc
  let (body, _) ← sequence (pc + 2) (next - 1)
  pure (.atomic body, next)

/-- Whether the word two before `position` is JUMP. -/
def jumpBefore (position : ℕ) : Parse Bool :=
  if 2 ≤ position then do
    let op ← read code (position - 2)
    pure (op == Opcode.jump.word)
  else pure false

def parseBranch : ℕ → ℕ → Parse (List (List Node) × ℕ)
  | 0, _ => .error .outOfFuel
  | fuel + 1, cursor => do
    need code cursor 1
    let skip ← read code cursor
    if skip = Opcode.failure.word then pure ([], cursor + 1)
    else
      let next := cursor + skip
      if code.length < next ∨ next < cursor + 1 then fail (.invalidSkip cursor skip)
      else do
        let jumps ← jumpBefore code next
        let (branch, _) ← sequence (cursor + 1) (if jumps then next - 2 else next)
        let (branches, last) ← parseBranch fuel next
        pure (branch :: branches, last)

def parseGroupRefExists : Parse (Node × ℕ) := do
  need code pc 3
  let group ← read code (pc + 1)
  let skipPc := pc + 2
  let skip ← read code skipPc
  let noStart := skipPc + skip - 1
  if code.length < noStart then fail (.invalidSkip skipPc skip)
  else do
    let jumps ← jumpBefore code noStart
    if jumps then
      let jumpArgPc := noStart - 1
      let jumpArg ← read code jumpArgPc
      let noEnd := jumpArgPc + jumpArg
      if code.length < noEnd then fail (.invalidSkip jumpArgPc jumpArg)
      else do
        let (no, _) ← sequence noStart noEnd
        let (yes, _) ← sequence (pc + 3) (noStart - 2)
        pure (.groupRefExists group yes no, noEnd)
    else do
      let (yes, _) ← sequence (pc + 3) noStart
      pure (.groupRefExists group yes [], noStart)

/-- The node at `pc`, which starts with `opcode`, and the position after it. -/
def parseNode (fuel pc : ℕ) (opcode : Opcode) : Parse (Node × ℕ) :=
  match opcode with
  | .any => pure (.any false, pc + 1)
  | .anyAll => pure (.any true, pc + 1)
  | .literal | .literalIgnore | .literalLocIgnore | .literalUniIgnore => do
    let value ← operand code pc
    pure (.literal value (literalCase opcode), pc + 2)
  | .notLiteral | .notLiteralIgnore | .notLiteralLocIgnore | .notLiteralUniIgnore => do
    let value ← operand code pc
    pure (.notLiteral value (literalCase opcode), pc + 2)
  | .at_ => do
    let position ← operand code pc
    pure (.at_ position, pc + 2)
  | .category => do
    let category ← operand code pc
    pure (.in_ { items := [.category category], negated := false } .exact, pc + 2)
  | .in_ | .inIgnore | .inLocIgnore | .inUniIgnore => parseIn code fuel pc (inCase opcode)
  | .mark => do
    let index ← operand code pc
    pure (.mark index, pc + 2)
  | .groupRef | .groupRefIgnore | .groupRefLocIgnore | .groupRefUniIgnore => do
    let group ← operand code pc
    pure (.groupRef group (groupRefCase opcode), pc + 2)
  | .assert => parseAssert code sequence pc true
  | .assertNot => parseAssert code sequence pc false
  | .branch => do
    let (branches, next) ← parseBranch code sequence fuel (pc + 1)
    pure (.branch branches, next)
  | .repeatOne => parseRepeatOne code sequence pc .greedy
  | .minRepeatOne => parseRepeatOne code sequence pc .lazy
  | .possessiveRepeatOne => parseRepeatOne code sequence pc .possessive
  | .repeat_ => parseRepeat code sequence pc (untilKind code)
  | .possessiveRepeat => parseRepeat code sequence pc (successKind code)
  | .atomicGroup => parseAtomic code sequence pc
  | .groupRefExists => parseGroupRefExists code sequence pc
  | .info => fail (.unsupportedOpcode pc opcode.word)
  | _ => fail (.invalidOpcode pc opcode.word)

end Nodes

/-- The nodes from `pc` on, up to `stop` or a word that breaks, and the position reached. -/
def parseSequence (code : List Word) : ℕ → ℕ → ℕ → Parse (List Node × ℕ)
  | 0, _, _ => .error .outOfFuel
  | fuel + 1, pc, stop =>
    if pc < stop then do
      let op ← read code pc
      match Opcode.ofWord op with
      | none => fail (.invalidOpcode pc op)
      | some opcode =>
        if opcode.stops then pure ([], pc)
        else do
          let (node, next) ← parseNode code (parseSequence code fuel) fuel pc opcode
          let (nodes, last) ← parseSequence code fuel next stop
          pure (node :: nodes, last)
    else pure ([], pc)

/-- Where the nodes of a program start: after the INFO block, if there is one. -/
def programStart (code : List Word) : Parse ℕ := do
  let op ← read code 0
  if op = Opcode.info.word then do
    need code 0 2
    let skip ← read code 1
    if code.length < 1 + skip then fail (.invalidSkip 1 skip)
    else pure (1 + skip)
  else pure 0

/-- `Program::parse`. -/
def parse (code : List Word) : Parse (List Node) :=
  if code.isEmpty then fail (.truncated 0 1)
  else do
    let start ← programStart code
    let (nodes, _) ← parseSequence code (code.length + 1) start code.length
    pure nodes

end Pon.Sre
