import Mathlib.Data.List.Basic
import Pon.Sre.Code

/-!
# The layout of the stdlib compiler

The words that `_compiler.py` emits for a tree. A skip word counts from its own position. Two
choices are left open, so that what is proved holds whichever way they are made: which repeats take
the opcodes for a single unit, and whether a lone category is written without its set.
-/

namespace Pon.Sre

structure Layout where
  /-- `_simple`: the repeats whose body is a single unit. -/
  simple : List Node → Bool
  /-- A set that is one category is written as the category. -/
  bareCategory : Bool

/-- The choices of the stdlib. -/
def Layout.stdlib : Layout where
  simple
    | [.literal _ _] | [.notLiteral _ _] | [.any _] | [.in_ _ _] => true
    | _ => false
  bareCategory := false

def encodeSetItem : SetItem → List Word
  | .literal value => [Opcode.literal.word, value]
  | .range start stop => [Opcode.range.word, start, stop]
  | .rangeUnicodeIgnore start stop => [Opcode.rangeUniIgnore.word, start, stop]
  | .bitmap words => Opcode.charset.word :: words.val
  | .bigCharset blocks words => Opcode.bigCharset.word :: blocks :: words.val
  | .category category => [Opcode.category.word, category]

def encodeCharset (set : Charset) : List Word :=
  (if set.negated then [Opcode.negate.word] else []) ++ set.items.flatMap encodeSetItem ++
    [Opcode.failure.word]

/-- The category of a set that the layout writes without the set. -/
def Layout.bare (layout : Layout) (set : Charset) (case : CaseMode) : Option Word :=
  match layout.bareCategory, set, case with
  | true, { items := [.category category], negated := false }, .exact => some category
  | _, _, _ => none

def literalCode : CaseMode → Opcode
  | .exact => .literal
  | .ascii => .literalIgnore
  | .locale => .literalLocIgnore
  | .unicode => .literalUniIgnore

def notLiteralCode : CaseMode → Opcode
  | .exact => .notLiteral
  | .ascii => .notLiteralIgnore
  | .locale => .notLiteralLocIgnore
  | .unicode => .notLiteralUniIgnore

def inCode : CaseMode → Opcode
  | .exact => .in_
  | .ascii => .inIgnore
  | .locale => .inLocIgnore
  | .unicode => .inUniIgnore

def groupRefCode : CaseMode → Opcode
  | .exact => .groupRef
  | .ascii => .groupRefIgnore
  | .locale => .groupRefLocIgnore
  | .unicode => .groupRefUniIgnore

/-- The first opcode of `REPEATING_CODES`, or the third for a single unit. -/
def repeatCode : Bool → RepeatKind → Opcode
  | true, .greedy => .repeatOne
  | true, .lazy => .minRepeatOne
  | true, .possessive => .possessiveRepeatOne
  | false, .possessive => .possessiveRepeat
  | false, _ => .repeat_

/-- The second opcode of `REPEATING_CODES`. -/
def untilCode : RepeatKind → Opcode
  | .greedy => .maxUntil
  | .lazy => .minUntil
  | .possessive => .success

def maxWord : Option Bound → Word
  | none => maxRepeat
  | some bound => bound.val

/-- A skip word and the words it skips. -/
def block (words : List Word) : List Word :=
  (words.length + 1) :: words

variable (layout : Layout)

/-- The opcode that a node starts with. -/
def nodeCode : Node → Opcode
  | .literal _ case => literalCode case
  | .notLiteral _ case => notLiteralCode case
  | .any all => if all then .anyAll else .any
  | .at_ _ => .at_
  | .in_ set case => if (layout.bare set case).isSome then .category else inCode case
  | .mark _ => .mark
  | .groupRef _ case => groupRefCode case
  | .groupRefExists _ _ _ => .groupRefExists
  | .branch _ => .branch
  | .repeat_ body _ _ kind => repeatCode (layout.simple body) kind
  | .assert positive _ _ => if positive then .assert else .assertNot
  | .atomic _ => .atomicGroup

mutual

/-- The words of a node after its opcode. -/
def operands : Node → List Word
  | .literal value _ | .notLiteral value _ => [value]
  | .any _ => []
  | .at_ position => [position]
  | .in_ set case =>
    match layout.bare set case with
    | some category => [category]
    | none => block (encodeCharset set)
  | .mark index => [index]
  | .groupRef group _ => [group]
  | .groupRefExists group yes no =>
    if no.isEmpty then group :: ((encode yes).length + 2) :: encode yes
    else
      group :: ((encode yes).length + 4) :: encode yes ++ Opcode.jump.word :: block (encode no)
  | .branch branches => encodeBranches branches ++ [Opcode.failure.word]
  | .repeat_ body min max kind =>
    if layout.simple body then
      block (min :: maxWord max :: encode body ++ [Opcode.success.word])
    else block (min :: maxWord max :: encode body) ++ [(untilCode kind).word]
  | .assert _ width body => block (width :: encode body ++ [Opcode.success.word])
  | .atomic body => block (encode body ++ [Opcode.success.word])

/-- The words of a sequence. -/
def encode : List Node → List Word
  | [] => []
  | node :: nodes => (nodeCode layout node).word :: operands node ++ encode nodes

/-- The alternatives of a branch, each with a jump to the end of the branch. -/
def encodeBranches : List (List Node) → List Word
  | [] => []
  | branch :: branches =>
    ((encode branch).length + 3) :: encode branch ++
      Opcode.jump.word :: ((encodeBranches branches).length + 2) :: encodeBranches branches

end

/-- The words of a node. -/
def encodeNode (node : Node) : List Word :=
  (nodeCode layout node).word :: operands layout node

/-- The words of a program, after an INFO block with the given words. -/
def encodeProgram (info : Option (List Word)) (nodes : List Node) : List Word :=
  (match info with
    | some words => Opcode.info.word :: block words
    | none => []) ++ encode layout nodes ++ [Opcode.success.word]

/-! ## What the decoder can read

A conditional without an else part has no jump before its end, but its second-to-last word may have
the value of JUMP: a literal 15 in its last set or block, or the number of the group. The decoder
takes the last word for the skip of an else part. Whether it still finds the tree depends on that
word and on what follows. -/

/-- The last word, after a JUMP. -/
def jumpOperand (words : List Word) : Option Word :=
  match words.reverse with
  | operand :: op :: _ => if op = Opcode.jump.word then some operand else none
  | _ => none

/-- The last word of a conditional without an else part, where it follows the value of JUMP. -/
def misreadJump : Node → Option Word
  | .groupRefExists group yes no =>
    if no.isEmpty then
      jumpOperand (group :: ((encode layout yes).length + 2) :: encode layout yes)
    else none
  | _ => none

/-- The first word ends a sequence. -/
def startsWithStop : List Word → Bool
  | word :: _ => (Opcode.ofWord word).any Opcode.stops
  | [] => false

/-- The last node is a single word. -/
def endsWithAny (nodes : List Node) : Bool :=
  match nodes.getLast? with
  | some (.any _) => true
  | _ => false

/-- The misread operand leads to the end of the conditional, or past a word that ends the else part
at once, and it does not cut the last node of the conditional. -/
def jumpReadable (yes : List Node) (after : List Word) (jump : Word) : Bool :=
  jump ≤ 1 || !endsWithAny yes && startsWithStop after && jump ≤ after.length + 1

mutual

/-- The node is read where the words `after` follow it. -/
def nodeReadable (after : List Word) : Node → Bool
  | .groupRefExists group yes no =>
    if no.isEmpty then
      readable after yes &&
        (misreadJump layout (.groupRefExists group yes no)).all (jumpReadable yes after)
    else
      readable (Opcode.jump.word :: block (encode layout no) ++ after) yes && readable after no
  | .branch branches => branchesReadable (Opcode.failure.word :: after) branches
  | .repeat_ body _ _ kind =>
    readable ((if layout.simple body then Opcode.success else untilCode kind).word :: after) body
  | .assert _ _ body | .atomic body => readable (Opcode.success.word :: after) body
  | _ => true

/-- Every node is read, and no node follows a conditional whose last word is taken for a skip of
zero, where the decoder steps back and stops. -/
def readable (after : List Word) : List Node → Bool
  | [] => true
  | node :: nodes =>
    nodeReadable (encode layout nodes ++ after) node &&
      (misreadJump layout node != some 0 || nodes.isEmpty) && readable after nodes

def branchesReadable (after : List Word) : List (List Node) → Bool
  | [] => true
  | branch :: branches =>
    readable
        (Opcode.jump.word :: ((encodeBranches layout branches).length + 2) ::
          encodeBranches layout branches ++ after)
        branch &&
      branchesReadable after branches

end

end Pon.Sre
