import Pon.Binascii.Base64

/-!
# Quoted-printable

Bytes that do not stand for themselves are written as `=` and two hexadecimal digits, and long lines are
broken softly behind a `=`. In text the line breaks stay, all of them in the style of the first one, and a
blank in front of one is quoted. In a header a space is written as an underscore.
-/

namespace Pon.Binascii

/-! ## Hexadecimal digits -/

def HEX_DIGITS : List UInt8 := "0123456789abcdef".toList.map ascii

def hexDigitValue (ch : UInt8) : Option UInt8 :=
  if ascii '0' ≤ ch ∧ ch ≤ ascii '9' then some (ch - ascii '0')
  else if ascii 'a' ≤ ch ∧ ch ≤ ascii 'f' then some (ch - ascii 'a' + 10)
  else if ascii 'A' ≤ ch ∧ ch ≤ ascii 'F' then some (ch - ascii 'A' + 10)
  else none

def toAsciiUppercase (ch : UInt8) : UInt8 :=
  if ascii 'a' ≤ ch ∧ ch ≤ ascii 'z' then ch - 32 else ch

/-- An uppercase digit. Every index in use is below 16. -/
def hexDigit (value : UInt8) : UInt8 := toAsciiUppercase (HEX_DIGITS.getD value.toNat 0)

/-! ## Characters -/

abbrev LF : UInt8 := ascii '\n'
abbrev CR : UInt8 := ascii '\r'
abbrev SPACE : UInt8 := ascii ' '
abbrev TAB : UInt8 := ascii '\t'
abbrev EQUALS : UInt8 := ascii '='
abbrev UNDERSCORE : UInt8 := ascii '_'

/-! ## Decoding -/

/-- Behind a soft line break up to its newline. -/
def skipSoftBreak (rest : List UInt8) : List UInt8 := (rest.dropWhile (· ≠ LF)).drop 1

theorem length_skipSoftBreak_le (rest : List UInt8) : (skipSoftBreak rest).length ≤ rest.length := by
  rw [skipSoftBreak, List.length_drop]
  have shorter := (List.dropWhile_sublist (· ≠ LF) (l := rest)).length_le
  omega

def a2bQpCore (header : Bool) (data : List UInt8) : List UInt8 :=
  match data with
  | [] => []
  | ch :: rest =>
    if ch = EQUALS then
      match rest with
      | [] => []
      | first :: rest =>
        if first = LF ∨ first = CR then a2bQpCore header (skipSoftBreak (first :: rest))
        else if first = EQUALS then EQUALS :: a2bQpCore header rest
        else
          match rest with
          | [] => EQUALS :: a2bQpCore header [first]
          | second :: tail =>
            match hexDigitValue first, hexDigitValue second with
            | some high, some low => ((high <<< 4) ||| low) :: a2bQpCore header tail
            | _, _ => EQUALS :: a2bQpCore header (first :: second :: tail)
    else if header ∧ ch = UNDERSCORE then SPACE :: a2bQpCore header rest
    else ch :: a2bQpCore header rest
termination_by data.length
decreasing_by
  · exact Nat.lt_succ_of_le (length_skipSoftBreak_le _)
  all_goals simp only [List.length_cons]
  all_goals omega

/-! ## Encoding -/

def MAXLINESIZE : ℕ := 76

structure QpFlags where
  quotetabs : Bool
  istext : Bool
  header : Bool

/-- Whether the first line break is preceded by a carriage return. -/
def startsCrlf (data : List UInt8) : Bool :=
  match data.idxOf? LF with
  | some (position + 1) => data[position]? = some CR
  | _ => false

def needsQuoting (flags : QpFlags) (ch : UInt8) (next : Option UInt8) (linelen : ℕ) : Bool :=
  ch > 126 ∨ ch = EQUALS ∨ (flags.header ∧ ch = UNDERSCORE) ∨
    (ch = ascii '.' ∧ linelen = 0 ∧ (next = none ∨ next = some LF ∨ next = some CR ∨ next = some 0)) ∨
    (¬flags.istext ∧ (ch = CR ∨ ch = LF)) ∨
    ((ch = TAB ∨ ch = SPACE) ∧ next = none) ∨
    (ch < 33 ∧ ch ≠ CR ∧ ch ≠ LF ∧ (flags.quotetabs ∨ (ch ≠ TAB ∧ ch ≠ SPACE)))

def quoted (ch : UInt8) : List UInt8 := [EQUALS, hexDigit (ch >>> 4), hexDigit (ch &&& 0x0f)]

def lineBreak (crlf : Bool) : List UInt8 := if crlf then [CR, LF] else [LF]

def softBreak (crlf : Bool) : List UInt8 := EQUALS :: lineBreak crlf

structure QpLine where
  out : List UInt8 := []
  linelen : ℕ := 0

def QpLine.soft (line : QpLine) (crlf : Bool) : QpLine :=
  { out := line.out ++ softBreak crlf, linelen := 0 }

def QpLine.pushQuoted (line : QpLine) (crlf : Bool) (ch : UInt8) : QpLine :=
  let line := if MAXLINESIZE ≤ line.linelen + 3 then line.soft crlf else line
  { out := line.out ++ quoted ch, linelen := line.linelen + 3 }

/-- A blank at the end of the line is quoted. -/
def protectBlank (out : List UInt8) : List UInt8 :=
  match out.getLast? with
  | some last => if last = SPACE ∨ last = TAB then out.dropLast ++ quoted last else out
  | none => out

def QpLine.pushBreak (line : QpLine) (crlf : Bool) : QpLine :=
  { out := protectBlank line.out ++ lineBreak crlf, linelen := 0 }

def QpLine.pushPlain (line : QpLine) (crlf header : Bool) (ch : UInt8) (next : Option UInt8) : QpLine :=
  let line :=
    if next ≠ none ∧ next ≠ some LF ∧ MAXLINESIZE ≤ line.linelen + 1 then line.soft crlf else line
  { out := line.out ++ [if header ∧ ch = SPACE then UNDERSCORE else ch], linelen := line.linelen + 1 }

/-- A newline behind a carriage return belongs to the same break. -/
def behindBreak (ch : UInt8) (rest : List UInt8) : List UInt8 := if ch = CR then rest.tail else rest

theorem length_behindBreak_le (ch : UInt8) (rest : List UInt8) :
    (behindBreak ch rest).length ≤ rest.length := by
  unfold behindBreak
  split_ifs
  · rw [List.length_tail]
    omega
  · exact le_rfl

def encodeQp (flags : QpFlags) (crlf : Bool) (data : List UInt8) (line : QpLine) : List UInt8 :=
  match data with
  | [] => line.out
  | ch :: rest =>
    if needsQuoting flags ch rest.head? line.linelen then
      encodeQp flags crlf rest (line.pushQuoted crlf ch)
    else if flags.istext ∧ (ch = LF ∨ ch = CR ∧ rest.head? = some LF) then
      encodeQp flags crlf (behindBreak ch rest) (line.pushBreak crlf)
    else encodeQp flags crlf rest (line.pushPlain crlf flags.header ch rest.head?)
termination_by data.length
decreasing_by
  · exact Nat.lt_succ_self _
  · exact Nat.lt_succ_of_le (length_behindBreak_le ch rest)
  · exact Nat.lt_succ_self _

def b2aQpCore (data : List UInt8) (flags : QpFlags) : List UInt8 :=
  encodeQp flags (startsCrlf data) data {}

/-! ## Tokens -/

theorem hexDigit_spec {value : UInt8} (small : value < 16) :
    hexDigitValue (hexDigit value) = some value ∧
      hexDigit value ∉ [LF, CR, EQUALS, SPACE, TAB] ∧ hexDigit value ≤ 126 := by
  have table : ∀ i : Fin 16, hexDigitValue (hexDigit i.val.toUInt8) = some i.val.toUInt8 ∧
      hexDigit i.val.toUInt8 ∉ [LF, CR, EQUALS, SPACE, TAB] ∧ hexDigit i.val.toUInt8 ≤ 126 := by
    decide +kernel
  have index := table ⟨value.toNat, small⟩
  rwa [Nat.toUInt8, UInt8.ofNat_toNat] at index

theorem nibbles (ch : UInt8) :
    ch >>> 4 < 16 ∧ ch &&& 0x0f < 16 ∧ ((ch >>> 4) <<< 4) ||| (ch &&& 0x0f) = ch := by
  have table : ∀ i : Fin 256, i.val.toUInt8 >>> 4 < 16 ∧ i.val.toUInt8 &&& 0x0f < 16 ∧
      ((i.val.toUInt8 >>> 4) <<< 4) ||| (i.val.toUInt8 &&& 0x0f) = i.val.toUInt8 := by
    decide +kernel
  have index := table ⟨ch.toNat, ch.toNat_lt⟩
  rwa [Nat.toUInt8, UInt8.ofNat_toNat] at index

theorem a2bQpCore_quoted (header : Bool) (ch : UInt8) (rest : List UInt8) :
    a2bQpCore header (quoted ch ++ rest) = ch :: a2bQpCore header rest := by
  obtain ⟨highSmall, lowSmall, whole⟩ := nibbles ch
  obtain ⟨isHigh, ordinary, -⟩ := hexDigit_spec highSmall
  obtain ⟨isLow, -⟩ := hexDigit_spec lowSmall
  simp only [List.mem_cons, not_or] at ordinary
  change a2bQpCore header (EQUALS :: hexDigit (ch >>> 4) :: hexDigit (ch &&& 0x0f) :: rest) = _
  rw [a2bQpCore.eq_def]
  dsimp only
  rw [if_pos rfl, if_neg (not_or_intro ordinary.1 ordinary.2.1), if_neg ordinary.2.2.1, isHigh, isLow]
  dsimp only
  rw [whole]

theorem a2bQpCore_softBreak (header crlf : Bool) (rest : List UInt8) :
    a2bQpCore header (softBreak crlf ++ rest) = a2bQpCore header rest := by
  cases crlf with
  | false =>
    change a2bQpCore header (EQUALS :: LF :: rest) = _
    rw [a2bQpCore.eq_def]
    dsimp only
    rw [if_pos rfl, if_pos (Or.inl rfl)]
    rfl
  | true =>
    change a2bQpCore header (EQUALS :: CR :: LF :: rest) = _
    rw [a2bQpCore.eq_def]
    dsimp only
    rw [if_pos rfl, if_pos (Or.inr rfl)]
    rfl

variable {ch blank : UInt8} {flags : QpFlags} {next : Option UInt8} {crlf : Bool}
  {data whole front : List UInt8}

theorem a2bQpCore_plain {header : Bool} (notEquals : ch ≠ EQUALS)
    (notUnderscore : ¬(header ∧ ch = UNDERSCORE)) (rest : List UInt8) :
    a2bQpCore header (ch :: rest) = ch :: a2bQpCore header rest := by
  rw [a2bQpCore.eq_def]
  dsimp only
  rw [if_neg notEquals, if_neg notUnderscore]

theorem a2bQpCore_underscore (rest : List UInt8) :
    a2bQpCore true (UNDERSCORE :: rest) = SPACE :: a2bQpCore true rest := by
  rw [a2bQpCore.eq_def]
  dsimp only
  rw [if_neg (by decide), if_pos ⟨rfl, rfl⟩]

/-! ## Steps -/

theorem of_not_needsQuoting {linelen : ℕ} (ordinary : ¬needsQuoting flags ch next linelen = true) :
    ch ≤ 126 ∧ ch ≠ EQUALS ∧ ¬(flags.header ∧ ch = UNDERSCORE) ∧ (flags.istext ∨ ch ≠ LF) := by
  simp only [needsQuoting, decide_eq_true_eq, not_or] at ordinary
  obtain ⟨low, notEquals, notUnderscore, -, noBreak, -⟩ := ordinary
  refine ⟨UInt8.not_lt.mp low, notEquals, notUnderscore, ?_⟩
  by_cases text : flags.istext = true
  · exact Or.inl text
  · exact Or.inr fun feed ↦ noBreak ⟨text, Or.inr feed⟩

/-- In text a carriage return is not quoted. -/
theorem ne_of_needsQuoting (text : flags.istext) {linelen : ℕ}
    (quoting : needsQuoting flags ch next linelen = true) : ch ≠ CR := by
  rintro rfl
  simp +decide [needsQuoting, text] at quoting

/-- A line break of the data behind the bytes consumed. -/
def IsBreak (consumed broken : List UInt8) : Prop :=
  broken = [LF] ∧ consumed.getLast? ≠ some CR ∨ broken = [CR, LF]

/-- A relation between the output and the bytes consumed that every step of the encoder keeps. -/
structure QpInvariant (flags : QpFlags) (crlf : Bool) (whole : List UInt8)
    (Holds : List UInt8 → List UInt8 → Prop) : Prop where
  quoted {out consumed} (ch : UInt8) : Holds out consumed → Holds (out ++ quoted ch) (consumed ++ [ch])
  soft {out consumed} : Holds out consumed → Holds (out ++ softBreak crlf) consumed
  plain {out consumed} {ch : UInt8} (low : ch ≤ 126) (notFeed : ch ≠ LF) (notEquals : ch ≠ EQUALS)
    (notUnderscore : ¬(flags.header ∧ ch = UNDERSCORE)) :
    Holds out consumed →
      Holds (out ++ [if flags.header ∧ ch = SPACE then UNDERSCORE else ch]) (consumed ++ [ch])
  broken {out consumed broken rest} (text : flags.istext) (isBreak : IsBreak consumed broken)
    (split : consumed ++ broken ++ rest = whole) :
    Holds out consumed → Holds (protectBlank out ++ lineBreak crlf) (consumed ++ broken)

section Invariant

variable {flags : QpFlags} {crlf : Bool} {whole : List UInt8} {Holds : List UInt8 → List UInt8 → Prop}
  (inv : QpInvariant flags crlf whole Holds)

include inv

variable {consumed : List UInt8}

theorem QpInvariant.pushQuoted {line : QpLine} (holds : Holds line.out consumed) (ch : UInt8) :
    Holds (line.pushQuoted crlf ch).out (consumed ++ [ch]) := by
  unfold QpLine.pushQuoted
  by_cases long : MAXLINESIZE ≤ line.linelen + 3
  · rw [if_pos long]
    exact inv.quoted ch (inv.soft holds)
  · rw [if_neg long]
    exact inv.quoted ch holds

theorem QpInvariant.pushPlain {line : QpLine} (holds : Holds line.out consumed)
    (ordinary : ¬needsQuoting flags ch next line.linelen = true)
    (notFeed : ch ≠ LF) :
    Holds (line.pushPlain crlf flags.header ch next).out (consumed ++ [ch]) := by
  obtain ⟨low, notEquals, notUnderscore, -⟩ := of_not_needsQuoting ordinary
  unfold QpLine.pushPlain
  by_cases long : next ≠ none ∧ next ≠ some LF ∧ MAXLINESIZE ≤ line.linelen + 1
  · rw [if_pos long]
    exact inv.plain low notFeed notEquals notUnderscore (inv.soft holds)
  · rw [if_neg long]
    exact inv.plain low notFeed notEquals notUnderscore holds

/-- The position of the encoder is inside of no line break. -/
theorem QpInvariant.run (data : List UInt8) (line : QpLine) (holds : Holds line.out consumed)
    (split : consumed ++ data = whole)
    (outside : flags.istext → data.head? = some LF → consumed.getLast? ≠ some CR) :
    Holds (encodeQp flags crlf data line) whole := by
  fun_induction encodeQp flags crlf data line generalizing consumed with
  | case1 line =>
    rw [List.append_nil] at split
    exact split ▸ holds
  | case2 line ch rest quoting ih =>
    refine ih (inv.pushQuoted holds ch) (by simpa using split) fun text _ ↦ ?_
    rw [List.getLast?_concat]
    exact fun same ↦ ne_of_needsQuoting text quoting (Option.some.inj same)
  | case3 line ch rest ordinary isBreak ih =>
    obtain rfl | both := isBreak.2
    · have behind : behindBreak LF rest = rest := if_neg (by decide)
      rw [behind] at ih ⊢
      have whole : consumed ++ [LF] ++ rest = whole := by simpa using split
      refine ih (inv.broken isBreak.1 (Or.inl ⟨rfl, outside isBreak.1 rfl⟩) whole holds) whole fun _ _ ↦ ?_
      rw [List.getLast?_concat]
      decide
    · obtain ⟨rfl, feed⟩ := both
      obtain ⟨tail, rfl⟩ := List.head?_eq_some_iff.mp feed
      have behind : behindBreak CR (LF :: tail) = tail := rfl
      rw [behind] at ih ⊢
      have whole : consumed ++ [CR, LF] ++ tail = whole := by simpa using split
      refine ih (inv.broken isBreak.1 (Or.inr rfl) whole holds) whole fun _ _ ↦ ?_
      have last : (consumed ++ [CR, LF]).getLast? = some LF := by simp
      rw [last]
      decide
  | case4 line ch rest ordinary noBreak ih =>
    have notFeed : ch ≠ LF := by
      obtain text | notFeed := (of_not_needsQuoting ordinary).2.2.2
      · exact fun feed ↦ noBreak ⟨text, Or.inl feed⟩
      · exact notFeed
    refine ih (inv.pushPlain holds ordinary notFeed) (by simpa using split) fun text feed ↦ ?_
    rw [List.getLast?_concat]
    exact fun same ↦ noBreak ⟨text, Or.inr ⟨Option.some.inj same, feed⟩⟩

end Invariant

/-! ## Round trip -/

theorem quoted_eq_concat (ch : UInt8) :
    quoted ch = [EQUALS, hexDigit (ch >>> 4)] ++ [hexDigit (ch &&& 0x0f)] := rfl

theorem softBreak_eq_concat (crlf : Bool) : ∃ front, softBreak crlf = front ++ [LF] := by
  cases crlf with
  | false => exact ⟨[EQUALS], rfl⟩
  | true => exact ⟨[EQUALS, CR], rfl⟩

theorem protectBlank_cases (out : List UInt8) :
    (∃ front blank, (blank = SPACE ∨ blank = TAB) ∧ out = front ++ [blank] ∧
      protectBlank out = front ++ quoted blank) ∨
      protectBlank out = out ∧ ∀ blank, blank = SPACE ∨ blank = TAB → out.getLast? ≠ some blank := by
  unfold protectBlank
  cases found : out.getLast? with
  | none => exact Or.inr ⟨rfl, fun blank _ same ↦ nomatch same⟩
  | some last =>
    obtain ⟨front, rfl⟩ := List.getLast?_eq_some_iff.mp found
    by_cases isBlank : last = SPACE ∨ last = TAB
    · refine Or.inl ⟨front, last, isBlank, rfl, ?_⟩
      dsimp only
      rw [if_pos isBlank, List.dropLast_concat]
    · refine Or.inr ⟨if_neg isBlank, fun blank isOther same ↦ isBlank ?_⟩
      rw [Option.some.inj same]
      exact isOther

/-- The output is made of tokens for the bytes consumed. -/
inductive Encodes (flags : QpFlags) (crlf : Bool) : List UInt8 → List UInt8 → Prop
  | nil : Encodes flags crlf [] []
  | quoted {out data} (encoded : Encodes flags crlf out data) (ch : UInt8) :
      Encodes flags crlf (out ++ quoted ch) (data ++ [ch])
  | soft {out data} (encoded : Encodes flags crlf out data) :
      Encodes flags crlf (out ++ softBreak crlf) data
  | plain {out data} (encoded : Encodes flags crlf out data) {ch : UInt8} (notEquals : ch ≠ EQUALS)
      (notUnderscore : ¬(flags.header ∧ ch = UNDERSCORE)) :
      Encodes flags crlf (out ++ [ch]) (data ++ [ch])
  | underscore {out data} (encoded : Encodes flags crlf out data) (header : flags.header) :
      Encodes flags crlf (out ++ [UNDERSCORE]) (data ++ [SPACE])

variable {out : List UInt8}

theorem Encodes.decode (encoded : Encodes flags crlf out data)
    (rest : List UInt8) :
    a2bQpCore flags.header (out ++ rest) = data ++ a2bQpCore flags.header rest := by
  induction encoded generalizing rest with
  | nil => rfl
  | quoted _ ch ih =>
    rw [List.append_assoc, ih, a2bQpCore_quoted, List.append_assoc]
    rfl
  | soft _ ih => rw [List.append_assoc, ih, a2bQpCore_softBreak]
  | plain _ notEquals notUnderscore ih =>
    rw [List.append_assoc, ih, List.singleton_append, a2bQpCore_plain notEquals notUnderscore,
      List.append_assoc]
    rfl
  | underscore _ header ih =>
    rw [List.append_assoc, ih, List.singleton_append, header, a2bQpCore_underscore, List.append_assoc]
    rfl

/-- A blank or a carriage return at the end stands for itself. -/
theorem Encodes.of_concat {last : UInt8}
    (isPlain : last = SPACE ∨ last = TAB ∨ last = CR) (split : whole = out ++ [last])
    (encoded : Encodes flags crlf whole data) :
    ∃ front, data = front ++ [last] ∧ Encodes flags crlf out front := by
  cases encoded with
  | nil => exact absurd split.symm (List.append_ne_nil_of_right_ne_nil out (List.cons_ne_nil last []))
  | quoted encoded ch =>
    rw [quoted_eq_concat, ← List.append_assoc] at split
    obtain ⟨-, same⟩ := List.append_inj' split rfl
    obtain ⟨-, ordinary, -⟩ := hexDigit_spec (nibbles ch).2.1
    rw [(List.cons.inj same).1] at ordinary
    simp only [List.mem_cons, not_or] at ordinary
    exact absurd isPlain (by simp [ordinary])
  | soft encoded =>
    obtain ⟨front, broken⟩ := softBreak_eq_concat crlf
    rw [broken, ← List.append_assoc] at split
    obtain ⟨-, same⟩ := List.append_inj' split rfl
    rw [← (List.cons.inj same).1] at isPlain
    exact absurd isPlain (by decide)
  | plain encoded notEquals notUnderscore =>
    obtain ⟨same, last⟩ := List.append_inj' split rfl
    rw [last]
    exact ⟨_, rfl, same ▸ encoded⟩
  | underscore encoded header =>
    obtain ⟨-, same⟩ := List.append_inj' split rfl
    rw [← (List.cons.inj same).1] at isPlain
    exact absurd isPlain (by decide)

theorem Encodes.protectBlank (encoded : Encodes flags crlf out data) :
    Encodes flags crlf (protectBlank out) data := by
  obtain ⟨front, blank, isBlank, rfl, safe⟩ | safe := protectBlank_cases out
  · obtain ⟨data, rfl, rest⟩ := encoded.of_concat (isBlank.imp_right Or.inl) rfl
    rw [safe]
    exact rest.quoted blank
  · rw [safe.1]
    exact encoded

/-- A break in the style of the output. -/
theorem Encodes.lineBreak (encoded : Encodes flags crlf out data) :
    Encodes flags crlf (out ++ lineBreak crlf) (data ++ lineBreak crlf) := by
  have feed {out data : List UInt8} (encoded : Encodes flags crlf out data) :
      Encodes flags crlf (out ++ [LF]) (data ++ [LF]) :=
    encoded.plain (by decide) fun underscore ↦ absurd underscore.2 (by decide)
  cases crlf with
  | false => exact feed encoded
  | true =>
    have carriage : Encodes flags true (out ++ [CR]) (data ++ [CR]) :=
      encoded.plain (by decide) fun underscore ↦ absurd underscore.2 (by decide)
    have both := feed carriage
    rwa [List.append_assoc, List.append_assoc] at both

/-! ## Line breaks -/

/-- Every newline has a carriage return in front of it, or none has. -/
def Styled (crlf : Bool) (data : List UInt8) : Prop :=
  ∀ front back, data = front ++ LF :: back → (front.getLast? = some CR ↔ crlf = true)

/-- The first newline tells the style. -/
theorem Styled.startsCrlf (styled : Styled crlf data) : Styled (startsCrlf data) data := by
  cases found : data.idxOf? LF with
  | none =>
    intro front back split
    have absent := List.idxOf?_eq_none_iff.mp found
    rw [split] at absent
    exact absurd (List.mem_append_right front List.mem_cons_self) absent
  | some position =>
    obtain ⟨bound, isFeed, -⟩ := List.idxOf?_eq_some_iff.mp found
    have split : data = data.take position ++ LF :: data.drop (position + 1) := by
      rw [← isFeed, List.getElem_cons_drop, List.take_append_drop]
    have first := styled _ _ split
    have same : Binascii.startsCrlf data = crlf := by
      unfold Binascii.startsCrlf
      rw [found]
      cases position with
      | zero =>
        cases crlf with
        | false => rfl
        | true => exact nomatch first.mpr rfl
      | succ position =>
        have before : (data.take (position + 1)).getLast? = data[position]? := by
          rw [List.getLast?_take, if_neg (Nat.succ_ne_zero position), Nat.add_sub_cancel,
            List.getElem?_eq_getElem (by omega), Option.some_or]
        rw [before] at first
        dsimp only
        rw [Bool.eq_iff_iff, decide_eq_true_iff, first]
    rw [same]
    exact styled

theorem Styled.eq_lineBreak {consumed broken rest : List UInt8} (styled : Styled crlf whole)
    (isBreak : IsBreak consumed broken) (split : consumed ++ broken ++ rest = whole) :
    broken = lineBreak crlf := by
  obtain ⟨rfl, single⟩ | rfl := isBreak
  · have style := styled consumed rest (by simpa using split.symm)
    cases crlf with
    | false => rfl
    | true => exact absurd (style.mpr rfl) single
  · have style := styled (consumed ++ [CR]) rest (by simpa using split.symm)
    rw [List.getLast?_concat] at style
    cases crlf with
    | false => exact nomatch style.mp rfl
    | true => rfl

theorem encodes_invariant (styled : flags.istext → Styled crlf whole) :
    QpInvariant flags crlf whole (Encodes flags crlf) where
  quoted ch encoded := encoded.quoted ch
  soft encoded := encoded.soft
  plain _ _ notEquals notUnderscore encoded := by
    split_ifs with space
    · rw [space.2]
      exact encoded.underscore space.1
    · exact encoded.plain notEquals notUnderscore
  broken text isBreak split encoded := by
    rw [(styled text).eq_lineBreak isBreak split]
    exact encoded.protectBlank.lineBreak

theorem qp_round_trip (styled : flags.istext → ∃ crlf, Styled crlf data) :
    a2bQpCore flags.header (b2aQpCore data flags) = data := by
  have first : flags.istext → Styled (startsCrlf data) data := fun text ↦
    (styled text).choose_spec.startsCrlf
  have encoded := (encodes_invariant first).run data {} .nil rfl fun _ _ same ↦ nomatch same
  have decoded := encoded.decode []
  rw [List.append_nil] at decoded
  exact decoded.trans (by rw [a2bQpCore, List.append_nil])

/-! ## Clean output -/

theorem low_quoted (ch : UInt8) : ∀ byte ∈ quoted ch, byte ≤ 126 := by
  obtain ⟨highSmall, lowSmall, -⟩ := nibbles ch
  have high := (hexDigit_spec highSmall).2.2
  have low := (hexDigit_spec lowSmall).2.2
  intro byte member
  simp only [quoted, List.mem_cons, List.not_mem_nil, or_false] at member
  obtain rfl | rfl | rfl := member
  · decide
  · exact high
  · exact low

theorem low_lineBreak (crlf : Bool) : ∀ byte ∈ lineBreak crlf, byte ≤ 126 := by
  have feed : ∀ byte ∈ [LF], byte ≤ 126 := List.forall_mem_singleton.mpr (by decide)
  cases crlf with
  | false => exact feed
  | true => exact List.forall_mem_cons.mpr ⟨by decide, feed⟩

theorem low_protectBlank (low : ∀ byte ∈ out, byte ≤ 126) :
    ∀ byte ∈ protectBlank out, byte ≤ 126 := by
  obtain ⟨front, blank, -, rfl, safe⟩ | safe := protectBlank_cases out
  · rw [safe]
    exact List.forall_mem_append.mpr ⟨(List.forall_mem_append.mp low).1, low_quoted blank⟩
  · rwa [safe.1]

theorem low_invariant (flags : QpFlags) (crlf : Bool) (whole : List UInt8) :
    QpInvariant flags crlf whole fun out _ ↦ ∀ byte ∈ out, byte ≤ 126 where
  quoted ch low := List.forall_mem_append.mpr ⟨low, low_quoted ch⟩
  soft low := by
    refine List.forall_mem_append.mpr ⟨low, List.forall_mem_cons.mpr ⟨by decide, ?_⟩⟩
    exact low_lineBreak crlf
  plain small _ _ _ low := by
    refine List.forall_mem_append.mpr ⟨low, List.forall_mem_singleton.mpr ?_⟩
    split_ifs
    · decide
    · exact small
  broken _ _ _ low := List.forall_mem_append.mpr ⟨low_protectBlank low, low_lineBreak crlf⟩

/-- Nowhere in the output a newline follows the given bytes. -/
def Avoids (front out : List UInt8) : Prop := ¬front ++ [LF] <:+: out

theorem Avoids.of_append {more : List UInt8} (avoids : Avoids front (out ++ more)) :
    Avoids front out := fun found ↦ avoids (found.trans (List.prefix_append out more).isInfix)

section

variable (avoids : Avoids front out)
include avoids

theorem Avoids.concat {byte : UInt8}
    (notFeed : byte ≠ LF) : Avoids front (out ++ [byte]) := by
  intro found
  obtain last | inside := List.infix_concat_iff.mp found
  · obtain empty | ⟨front', same, -⟩ := List.suffix_concat_iff.mp last
    · exact List.append_ne_nil_of_right_ne_nil front (List.cons_ne_nil LF []) empty
    · exact notFeed (List.cons.inj (List.append_inj' same rfl).2).1.symm
  · exact avoids inside

theorem Avoids.feed (absent : ¬front <:+ out) :
    Avoids front (out ++ [LF]) := by
  intro found
  obtain last | inside := List.infix_concat_iff.mp found
  · obtain empty | ⟨front', same, suffixed⟩ := List.suffix_concat_iff.mp last
    · exact List.append_ne_nil_of_right_ne_nil front (List.cons_ne_nil LF []) empty
    · rw [(List.append_inj' same rfl).1] at absent
      exact absent suffixed
  · exact avoids inside

theorem Avoids.quoted (ch : UInt8) :
    Avoids front (out ++ quoted ch) := by
  obtain ⟨highSmall, lowSmall, -⟩ := nibbles ch
  have high := (hexDigit_spec highSmall).2.1
  have low := (hexDigit_spec lowSmall).2.1
  simp only [List.mem_cons, not_or] at high low
  have whole := ((avoids.concat (by decide : EQUALS ≠ LF)).concat high.1).concat low.1
  rwa [List.append_assoc, List.append_assoc] at whole

theorem Avoids.protectBlank :
    Avoids front (protectBlank out) := by
  obtain ⟨rest, blank, -, rfl, safe⟩ | safe := protectBlank_cases out
  · rw [safe]
    exact avoids.of_append.quoted blank
  · rwa [safe.1]

end

theorem getLast?_protectBlank (out : List UInt8) (isBlank : blank = SPACE ∨ blank = TAB) :
    (protectBlank out).getLast? ≠ some blank := by
  obtain ⟨rest, other, -, rfl, safe⟩ | safe := protectBlank_cases out
  · rw [safe, quoted_eq_concat, ← List.append_assoc, List.getLast?_concat]
    intro same
    have ordinary := (hexDigit_spec (nibbles other).2.1).2.1
    rw [Option.some.inj same] at ordinary
    simp only [List.mem_cons, not_or] at ordinary
    exact absurd isBlank (by simp [ordinary])
  · rw [safe.1]
    exact safe.2 blank isBlank

theorem not_suffix_concat {last byte : UInt8} (other : last ≠ byte) :
    ¬front ++ [last] <:+ out ++ [byte] := by
  intro suffixed
  obtain empty | ⟨front', same, -⟩ := List.suffix_concat_iff.mp suffixed
  · exact List.append_ne_nil_of_right_ne_nil front (List.cons_ne_nil last []) empty
  · exact other (List.cons.inj (List.append_inj' same rfl).2).1

theorem not_singleton_suffix_concat {byte : UInt8} (other : blank ≠ byte) (out : List UInt8) :
    ¬[blank] <:+ out ++ [byte] := @not_suffix_concat [] out blank byte other

theorem not_suffix_append_concat (absent : ¬front <:+ out) (last : UInt8) :
    ¬front ++ [last] <:+ out ++ [last] := by
  intro suffixed
  obtain empty | ⟨front', same, rest⟩ := List.suffix_concat_iff.mp suffixed
  · exact List.append_ne_nil_of_right_ne_nil front (List.cons_ne_nil last []) empty
  · rw [(List.append_inj' same rfl).1] at absent
    exact absent rest

theorem Avoids.lineBreak (avoids : Avoids front out)
    (feed : crlf = false → ¬front <:+ out) (both : crlf = true → ¬front <:+ out ++ [CR]) :
    Avoids front (out ++ lineBreak crlf) := by
  cases crlf with
  | false => exact avoids.feed (feed rfl)
  | true =>
    have whole := (avoids.concat (by decide : CR ≠ LF)).feed (both rfl)
    rwa [List.append_assoc] at whole

theorem Avoids.softBreak (avoids : Avoids front out)
    (feed : crlf = false → ¬front <:+ out ++ [EQUALS])
    (both : crlf = true → ¬front <:+ out ++ [EQUALS] ++ [CR]) :
    Avoids front (out ++ softBreak crlf) := by
  have whole := (avoids.concat (by decide : EQUALS ≠ LF)).lineBreak feed both
  rwa [List.append_assoc] at whole

/-- No newline follows a blank. -/
theorem blank_invariant (flags : QpFlags) (crlf : Bool) (whole : List UInt8)
    (isBlank : blank = SPACE ∨ blank = TAB) :
    QpInvariant flags crlf whole fun out _ ↦ Avoids [blank] out where
  quoted ch avoids := avoids.quoted ch
  soft avoids := by
    have other (byte : UInt8) (plain : byte = EQUALS ∨ byte = CR) : blank ≠ byte := by
      obtain rfl | rfl := isBlank <;> obtain rfl | rfl := plain <;> decide
    exact avoids.softBreak (fun _ ↦ not_singleton_suffix_concat (other _ (Or.inl rfl)) _)
      fun _ ↦ not_singleton_suffix_concat (other _ (Or.inr rfl)) _
  plain _ notFeed _ _ avoids := by
    split_ifs
    · exact avoids.concat (by decide)
    · exact avoids.concat notFeed
  broken _ _ _ avoids := by
    have carriage : blank ≠ CR := by
      obtain rfl | rfl := isBlank <;> decide
    refine avoids.protectBlank.lineBreak (fun _ ↦ ?_) fun _ ↦ not_singleton_suffix_concat carriage _
    rw [List.singleton_suffix_iff_getLast?_eq_some]
    exact getLast?_protectBlank _ isBlank

/-- Where the line breaks are of one style, no break of two bytes follows a blank. -/
theorem blank_crlf_invariant (styled : flags.istext → Styled crlf whole)
    (isBlank : blank = SPACE ∨ blank = TAB) :
    QpInvariant flags crlf whole fun out consumed ↦
      Encodes flags crlf out consumed ∧ Avoids ([blank] ++ [CR]) out where
  quoted ch holds := ⟨(encodes_invariant styled).quoted ch holds.1, holds.2.quoted ch⟩
  soft holds := by
    have notEquals : blank ≠ EQUALS := by
      obtain rfl | rfl := isBlank <;> decide
    refine ⟨(encodes_invariant styled).soft holds.1, holds.2.softBreak (fun _ ↦ ?_) fun _ ↦ ?_⟩
    · exact not_suffix_concat (by decide)
    · exact not_suffix_append_concat (not_singleton_suffix_concat notEquals _) CR
  plain low notFeed notEquals notUnderscore holds := by
    refine ⟨(encodes_invariant styled).plain low notFeed notEquals notUnderscore holds.1, ?_⟩
    split_ifs
    · exact holds.2.concat (by decide)
    · exact holds.2.concat notFeed
  broken text isBreak split holds := by
    refine ⟨(encodes_invariant styled).broken text isBreak split holds.1,
      holds.2.protectBlank.lineBreak (fun single ↦ ?_) fun _ ↦ ?_⟩
    · intro suffixed
      obtain ⟨front, ended⟩ := suffixed
      rw [← List.append_assoc] at ended
      obtain ⟨data, rfl, -⟩ := holds.1.protectBlank.of_concat (Or.inr (Or.inr rfl)) ended.symm
      have style := (styled text).eq_lineBreak isBreak split
      rw [single] at style
      obtain ⟨-, alone⟩ | double := isBreak
      · exact alone List.getLast?_concat
      · exact absurd (double.symm.trans style) (by decide)
    · refine not_suffix_append_concat ?_ CR
      rw [List.singleton_suffix_iff_getLast?_eq_some]
      exact getLast?_protectBlank _ isBlank

/-- Every byte string is decoded from its encoding, in text if its line breaks are of one style. No byte
of the output is above 126 and no newline follows a blank, nor does a carriage return with a newline
unless the data is text with line breaks of both styles. -/
theorem quoted_printable (data : List UInt8) (flags : QpFlags) :
    ((flags.istext → ∃ crlf, Styled crlf data) →
        a2bQpCore flags.header (b2aQpCore data flags) = data) ∧
      (∀ byte ∈ b2aQpCore data flags, byte ≤ 126) ∧
      ∀ blank, blank = SPACE ∨ blank = TAB →
        ¬[blank, LF] <:+: b2aQpCore data flags ∧
          ((flags.istext → ∃ crlf, Styled crlf data) → ¬[blank, CR, LF] <:+: b2aQpCore data flags) := by
  have outside : flags.istext → data.head? = some LF → ([] : List UInt8).getLast? ≠ some CR :=
    fun _ _ same ↦ nomatch same
  refine ⟨qp_round_trip, ?_, fun blank isBlank ↦ ⟨?_, fun styled ↦ ?_⟩⟩
  · exact (low_invariant flags _ data).run data {} (fun byte member ↦ nomatch member) rfl outside
  · have start : Avoids [blank] [] := fun found ↦ nomatch List.eq_nil_of_infix_nil found
    exact (blank_invariant flags _ data isBlank).run data {} start rfl outside
  · have first : flags.istext → Styled (startsCrlf data) data := fun text ↦
      (styled text).choose_spec.startsCrlf
    have start : Avoids ([blank] ++ [CR]) [] := fun found ↦ nomatch List.eq_nil_of_infix_nil found
    exact ((blank_crlf_invariant first isBlank).run data {} ⟨.nil, start⟩ rfl outside).2

/-- The break behind a carriage return of its own is written in the style of the first one, and forms
a break of two bytes with it. -/
theorem blank_before_crlf :
    b2aQpCore [LF, SPACE, CR, CR, LF] ⟨false, true, false⟩ = [LF, SPACE, CR, LF] ∧
      [SPACE, CR, LF] <:+: b2aQpCore [LF, SPACE, CR, CR, LF] ⟨false, true, false⟩ := by
  have output : b2aQpCore [LF, SPACE, CR, CR, LF] ⟨false, true, false⟩ = [LF, SPACE, CR, LF] := by
    decide +kernel
  exact ⟨output, output ▸ ⟨[LF], [], rfl⟩⟩

end Pon.Binascii
