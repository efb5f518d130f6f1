import Mathlib.Data.List.TakeWhile
import Pon.Lib.Numeral
import Pon.Package.Names

/-!
# Integers from text

`int` of a text, against the grammar of integer literals. White space and the sign are taken off first, then
the prefix where the base allows it, and one loop reads the digits and the underscores.
-/

namespace Pon.Number

open Package Numeral

/-! ## Errors -/

def hexDigits (code : ℕ) : Text := [digitChar (code / 16), digitChar (code % 16)]

/-- `char::is_control`. -/
def isControl (char : Char) : Bool :=
  char.toNat < 0x20 || (0x7f ≤ char.toNat && char.toNat ≤ 0x9f)

def escapeChar (char : Char) : Text :=
  match char.toNat with
  | 0x5c => "\\\\".toList
  | 0x27 => "\\'".toList
  | 0x0a => "\\n".toList
  | 0x0d => "\\r".toList
  | 0x09 => "\\t".toList
  | code => if isControl char then "\\x".toList ++ hexDigits code else [char]

def pythonStringRepr (text : Text) : String :=
  "'" ++ String.ofList (text.flatMap escapeChar) ++ "'"

def invalidIntLiteral (text : Text) (base : ℤ) : String :=
  "invalid literal for int() with base " ++ toString base ++ ": " ++ pythonStringRepr text

/-! ## Digits -/

def digitValue (char : Char) : Option ℕ :=
  if '0' ≤ char ∧ char ≤ '9' then some (char.toNat - '0'.toNat)
  else if 'a' ≤ char ∧ char ≤ 'z' then some (char.toNat - 'a'.toNat + 10)
  else if 'A' ≤ char ∧ char ≤ 'Z' then some (char.toNat - 'A'.toNat + 10)
  else none

/-- The variables of the loop. -/
structure DigitScan where
  value : ℕ
  sawDigit : Bool
  previousDigit : Bool
  afterPrefix : Bool

def scanDigits (base : ℕ) : DigitScan → Text → Option DigitScan
  | scan, [] => some scan
  | scan, char :: rest =>
    if char = '_' then
      if !scan.previousDigit && !scan.afterPrefix then none
      else scanDigits base { scan with previousDigit := false, afterPrefix := false } rest
    else
      match digitValue char with
      | none => none
      | some digit =>
        if base ≤ digit then none
        else scanDigits base ⟨scan.value * base + digit, true, true, false⟩ rest

def DigitScan.finish (scan : DigitScan) : Option ℕ :=
  if !scan.sawDigit || !scan.previousDigit then none else some scan.value

def parseDigits (digits : Text) (base : ℕ) (prefixed : Bool) : Option ℕ :=
  (scanDigits base ⟨0, false, false, prefixed⟩ digits).bind DigitScan.finish

/-! ## Prefix and sign -/

/-- The base that the letter behind a leading zero stands for. -/
def prefixBase : Text → Option ℕ
  | '0' :: letter :: _ =>
    match letter.toLower with
    | 'b' => some 2
    | 'o' => some 8
    | 'x' => some 16
    | _ => none
  | _ => none

/-- The base, the digits and whether a prefix has been taken off. -/
def detectBase (rest : Text) (requestedBase : ℤ) : Except String (ℕ × Text × Bool) :=
  if requestedBase ≠ 0 ∧ ¬(2 ≤ requestedBase ∧ requestedBase ≤ 36) then
    .error "int() base must be >= 2 and <= 36, or 0"
  else
    match prefixBase rest with
    | some base =>
      if requestedBase = 0 ∨ requestedBase.toNat = base then .ok (base, rest.drop 2, true)
      else .ok (requestedBase.toNat, rest, false)
    | none => .ok (if requestedBase = 0 then 10 else requestedBase.toNat, rest, false)

def decimalBaseZeroIsInvalid (digits : Text) (value : ℕ) : Bool :=
  digits.head? = some '0' && value != 0

/-- Whether there is a minus sign, and the text behind the sign. -/
def splitSign : Text → Bool × Text
  | '+' :: after => (false, after)
  | '-' :: after => (true, after)
  | rest => (false, rest)

/-- The number behind the sign. -/
def parseMagnitude (invalid : String) (rest : Text) (requestedBase : ℤ) : Except String ℕ := do
  let (base, digits, prefixed) ← detectBase rest requestedBase
  match parseDigits digits base prefixed with
  | none => .error invalid
  | some value =>
    if requestedBase = 0 ∧ !prefixed ∧ decimalBaseZeroIsInvalid digits value then .error invalid
    else .ok value

def parseIntText (text : Text) (requestedBase : ℤ) : Except String ℤ :=
  let trimmed := trim text
  let invalid := invalidIntLiteral text requestedBase
  if trimmed = [] then .error invalid
  else
    let (negative, rest) := splitSign trimmed
    if rest = [] then .error invalid
    else do
      let value ← parseMagnitude invalid rest requestedBase
      return if negative then -value else value

/-! ## Grammar -/

/-- A letter that announces a base. -/
inductive PrefixLetter : Char → ℕ → Prop where
  | lowerB : PrefixLetter 'b' 2
  | upperB : PrefixLetter 'B' 2
  | lowerO : PrefixLetter 'o' 8
  | upperO : PrefixLetter 'O' 8
  | lowerX : PrefixLetter 'x' 16
  | upperX : PrefixLetter 'X' 16

/-- The part of a literal behind the sign, for a base or for `0`. -/
inductive Magnitude : ℕ → Text → ℕ → Prop where
  | digits {base text digits} : base ≠ 0 → Digits base text digits →
    Magnitude base text (value base digits)
  | prefixed {base radix letter text digits} : PrefixLetter letter radix → base = 0 ∨ base = radix →
    Digits radix text digits → Magnitude base ('0' :: letter :: text) (value radix digits)
  | separated {base radix letter text digits} : PrefixLetter letter radix → base = 0 ∨ base = radix →
    Digits radix text digits → Magnitude base ('0' :: letter :: '_' :: text) (value radix digits)
  | decimal {text digit digits} : Digits 10 text (digit :: digits) → digit ≠ 0 →
    Magnitude 0 text (value 10 (digit :: digits))
  | zeros {text digits} : Digits 10 text digits → (∀ digit ∈ digits, digit = 0) → Magnitude 0 text 0

inductive Signed (base : ℕ) : Text → ℤ → Prop where
  | bare {text n} : Magnitude base text n → Signed base text n
  | plus {text n} : Magnitude base text n → Signed base ('+' :: text) n
  | minus {text n} : Magnitude base text n → Signed base ('-' :: text) (-n)

/-- Tab, newline, vertical tab, form feed, carriage return and space. -/
def spaces : List Char := [9, 10, 11, 12, 13, 32].map Char.ofNat

def Blank (text : Text) : Prop := ∀ char ∈ text, char ∈ spaces

/-- The integer literals of a base, with the integers that they denote. -/
def Literal (base : ℕ) (text : Text) (n : ℤ) : Prop :=
  ∃ lead core trail, text = lead ++ core ++ trail ∧ Blank lead ∧ Blank trail ∧ Signed base core n

/-- The digit string of an integer. -/
def intString (base : ℕ) : ℤ → Text
  | .ofNat n => digitString base n
  | .negSucc n => '-' :: digitString base (n + 1)

/-! ## The loop -/

variable {char letter : Char} {text : Text} {base : ℕ} {digits : List ℕ} {n : ℤ}

/-- What a table says of the characters of a range. -/
theorem of_range {first last : Char} {P : Char → Prop} (count : ℕ)
    (size : last.toNat < count + first.toNat)
    (table : ∀ d < count, P (Char.ofNat (d + first.toNat))) (range : first ≤ char ∧ char ≤ last) :
    P char := by
  have low : first.toNat ≤ char.toNat := range.1
  have high : char.toNat ≤ last.toNat := range.2
  have entry := table (char.toNat - first.toNat) (by omega)
  rwa [Nat.sub_add_cancel low, Char.ofNat_toNat] at entry

theorem digitValue_iff {digit : ℕ} : digitValue char = some digit ↔ IsDigit char digit := by
  constructor
  · intro value
    unfold digitValue at value
    split_ifs at value with decimal lower upper
    · obtain rfl := Option.some.inj value
      exact of_range (P := fun char ↦ IsDigit char (char.toNat - 48)) 10 (by decide) (by decide) decimal
    · obtain rfl := Option.some.inj value
      exact of_range (P := fun char ↦ IsDigit char (char.toNat - 97 + 10)) 26 (by decide) (by decide) lower
    · obtain rfl := Option.some.inj value
      exact of_range (P := fun char ↦ IsDigit char (char.toNat - 65 + 10)) 26 (by decide) (by decide) upper
  · intro is
    have table : ∀ d < 36, (lowerDigits[d]?.toList ++ upperDigits[d]?.toList).all
      (fun char ↦ digitValue char = some d) = true := by decide
    refine of_decide_eq_true (List.all_eq_true.mp (table digit is.lt) char ?_)
    rw [List.mem_append, Option.mem_toList, Option.mem_toList]
    exact is

section Loop

variable {base w : ℕ}

/-- A character other than the underscore must be a digit of the base. -/
theorem scanDigits_digit {scan : DigitScan} {rest : Text} (digit : char ≠ '_') :
    (scanDigits base scan (char :: rest)).bind DigitScan.finish = some w ↔
      ∃ d, IsDigit char d ∧ d < base ∧
        (scanDigits base ⟨scan.value * base + d, true, true, false⟩ rest).bind DigitScan.finish =
          some w := by
  simp only [scanDigits, if_neg digit, ← digitValue_iff]
  cases digitValue char with
  | none => simp
  | some d =>
    by_cases large : base ≤ d
    · simp [large]
    · simp [large, Nat.lt_of_not_le large]

/-- What the loop reads after a digit, and what it reads after an underscore. -/
theorem scanDigits_iff (text : Text) :
    (∀ start, (scanDigits base ⟨start, true, true, false⟩ text).bind DigitScan.finish = some w ↔
      ∃ digits, Rest base text digits ∧
        digits.foldl (fun value digit ↦ value * base + digit) start = w) ∧
    ∀ start saw, (scanDigits base ⟨start, saw, false, false⟩ text).bind DigitScan.finish = some w ↔
      ∃ digits, Digits base text digits ∧
        digits.foldl (fun value digit ↦ value * base + digit) start = w := by
  induction text with
  | nil =>
    constructor
    · intro start
      simp [scanDigits, DigitScan.finish, Rest, not_digits_nil]
    · intro start saw
      simp [scanDigits, DigitScan.finish, not_digits_nil]
  | cons char text ih =>
    obtain ⟨afterDigit, afterUnderscore⟩ := ih
    have numeral : ∀ scan : DigitScan, char ≠ '_' →
        ((scanDigits base scan (char :: text)).bind DigitScan.finish = some w ↔
          ∃ digits, Digits base (char :: text) digits ∧
            digits.foldl (fun value digit ↦ value * base + digit) scan.value = w) := by
      intro scan digit
      rw [scanDigits_digit digit]
      simp only [afterDigit, Digits.cons_iff]
      constructor
      · rintro ⟨d, is, small, digits, rest, rfl⟩
        exact ⟨d :: digits, ⟨d, digits, rfl, is, small, rest⟩, rfl⟩
      · rintro ⟨-, ⟨d, digits, rfl, is, small, rest⟩, rfl⟩
        exact ⟨d, is, small, digits, rest, rfl⟩
    rcases eq_or_ne char '_' with rfl | digit
    · constructor
      · intro start
        simp [scanDigits, afterUnderscore, Rest, not_digits_underscore]
      · intro start saw
        simp [scanDigits, not_digits_underscore]
    · constructor
      · intro start
        rw [numeral _ digit]
        simp [Rest, digit]
      · intro start saw
        exact numeral _ digit

theorem parseDigits_eq_some_iff {digits : Text} {prefixed : Bool} :
    parseDigits digits base prefixed = some w ↔ ∃ numeral,
      (Digits base digits numeral ∨
        prefixed = true ∧ ∃ rest, digits = '_' :: rest ∧ Digits base rest numeral) ∧
      value base numeral = w := by
  have total : ∀ numeral, numeral.foldl (fun value digit ↦ value * base + digit) 0 =
      value base numeral := fun numeral ↦ by rw [foldl_eq, zero_mul, zero_add]
  simp only [← total]
  cases prefixed with
  | false => simpa [parseDigits] using (scanDigits_iff digits).2 0 false
  | true =>
    cases digits with
    | nil => simp [parseDigits, scanDigits, DigitScan.finish, not_digits_nil]
    | cons char rest =>
      rcases eq_or_ne char '_' with rfl | digit
      · have underscore := (@scanDigits_iff base w rest).2 0 false
        simpa [parseDigits, scanDigits, not_digits_underscore] using underscore
      · -- The flag for the prefix is dropped by the first digit.
        have same : parseDigits (char :: rest) base true = parseDigits (char :: rest) base false := by
          simp only [parseDigits, scanDigits, if_neg digit]
        rw [same]
        simpa [parseDigits, digit] using (scanDigits_iff (char :: rest)).2 0 false

end Loop

/-! ## Prefixes -/

theorem toLower_eq_iff {lower : Char} (upper : Char)
    (table : ∀ d < 26, (Char.ofNat (d + 'A'.toNat)).toLower = lower → Char.ofNat (d + 'A'.toNat) = upper)
    (same : char.toLower = lower) : char = lower ∨ char = upper := by
  by_cases capital : 'A' ≤ char ∧ char ≤ 'Z'
  · exact .inr (of_range (P := fun char ↦ char.toLower = lower → char = upper) 26 (by decide) table
      capital same)
  · have lowered : char.toLower = char := by
      unfold Char.toLower
      exact dif_neg capital
    exact .inl (lowered.symm.trans same)

variable {radix : ℕ}

theorem prefixBase_eq_some_iff :
    prefixBase text = some radix ↔
      ∃ letter rest, text = '0' :: letter :: rest ∧ PrefixLetter letter radix := by
  constructor
  · intro found
    unfold prefixBase at found
    split at found
    case h_2 => cases found
    case h_1 letter rest =>
      refine ⟨letter, rest, rfl, ?_⟩
      split at found <;> cases found
      case h_1 same =>
        rcases toLower_eq_iff 'B' (by decide) same with rfl | rfl
        exacts [.lowerB, .upperB]
      case h_2 same =>
        rcases toLower_eq_iff 'O' (by decide) same with rfl | rfl
        exacts [.lowerO, .upperO]
      case h_3 same =>
        rcases toLower_eq_iff 'X' (by decide) same with rfl | rfl
        exacts [.lowerX, .upperX]
  · rintro ⟨letter, rest, rfl, letter⟩
    cases letter <;> rfl

section

variable (announced : PrefixLetter letter radix)
include announced

theorem PrefixLetter.radix_unique {radix' : ℕ}
    (announced' : PrefixLetter letter radix') :
    radix = radix' := by
  cases announced <;> cases announced' <;> rfl

theorem PrefixLetter.lt_digit {digit : ℕ}
    (is : IsDigit letter digit) : max 10 radix ≤ digit := by
  rw [← digitValue_iff] at is
  cases announced <;> obtain rfl := Option.some.inj is <;> decide

theorem PrefixLetter.not_digits (small : base ≤ max 10 radix) :
    ¬Digits base ('0' :: letter :: text) digits := by
  intro read
  obtain ⟨-, digits, -, -, -, rest⟩ := Digits.cons_iff.mp read
  rcases rest with ⟨none, -⟩ | read | ⟨text', same, -⟩
  · cases none
  · obtain ⟨digit, -, -, is, below, -⟩ := Digits.cons_iff.mp read
    exact absurd (announced.lt_digit is) (by omega)
  · cases same
    cases announced

end

/-! ## Magnitudes -/

theorem value_eq_zero_iff (positive : base ≠ 0) :
    value base digits = 0 ↔ ∀ digit ∈ digits, digit = 0 := by
  constructor
  · intro zero digit mem
    exact Nat.digits_zero_of_eq_zero positive zero digit (List.mem_reverse.mpr mem)
  · intro zeros
    rw [value, List.eq_replicate_of_mem zeros, List.reverse_replicate, Nat.ofDigits_replicate_zero]

theorem isDigit_zero_iff : IsDigit char 0 ↔ char = '0' := by
  simp [IsDigit, lowerDigits, upperDigits, eq_comm]

/-- A decimal numeral is refused if it starts with a zero but has another value. -/
theorem decimalBaseZeroIsInvalid_iff (read : Digits 10 text digits) :
    decimalBaseZeroIsInvalid text (value 10 digits) = false ↔
      digits.head? ≠ some 0 ∨ ∀ digit ∈ digits, digit = 0 := by
  rw [← value_eq_zero_iff (by decide : 10 ≠ 0)]
  obtain ⟨char, rest, -, rfl, -, -⟩ := read.exists_cons
  obtain ⟨digit, others, rfl, is, -⟩ := Digits.cons_iff.mp read
  have zero : char = '0' ↔ digit = 0 := by
    constructor
    · rintro rfl
      exact Option.some.inj ((digitValue_iff.mpr is).symm.trans rfl)
    · rintro rfl
      exact isDigit_zero_iff.mp is
  simp [decimalBaseZeroIsInvalid, zero]
  tauto

variable {m : ℕ}

theorem parseMagnitude_of_detected {invalid : String} {rest digits : Text} {requestedBase : ℤ}
    {prefixed : Bool}
    (detected : detectBase rest requestedBase = .ok (base, digits, prefixed)) :
    parseMagnitude invalid rest requestedBase = .ok m ↔ parseDigits digits base prefixed = some m ∧
      ¬(requestedBase = 0 ∧ (!prefixed) = true ∧ decimalBaseZeroIsInvalid digits m = true) := by
  have unfolded : parseMagnitude invalid rest requestedBase =
      match parseDigits digits base prefixed with
      | none => .error invalid
      | some value =>
        if requestedBase = 0 ∧ !prefixed ∧ decimalBaseZeroIsInvalid digits value then .error invalid
        else .ok value := by
    rw [parseMagnitude, detected]
    rfl
  rw [unfolded]
  cases parseDigits digits base prefixed with
  | none => simp
  | some value =>
    constructor
    · intro accepted
      dsimp only at accepted
      split_ifs at accepted with refused
      obtain rfl := Except.ok.inj accepted
      exact ⟨rfl, refused⟩
    · rintro ⟨same, allowed⟩
      obtain rfl := Option.some.inj same
      exact if_neg allowed

theorem parseMagnitude_ok_iff (invalid : String) {rest : Text}
    (valid : base = 0 ∨ 2 ≤ base ∧ base ≤ 36) :
    parseMagnitude invalid rest base = .ok m ↔ Magnitude base rest m := by
  have accepted : ¬((base : ℤ) ≠ 0 ∧ ¬(2 ≤ (base : ℤ) ∧ (base : ℤ) ≤ 36)) := by omega
  by_cases stripped : ∃ letter text radix,
      rest = '0' :: letter :: text ∧ PrefixLetter letter radix ∧ (base = 0 ∨ base = radix)
  · obtain ⟨letter, text, radix, rfl, announced, matching⟩ := stripped
    have found := prefixBase_eq_some_iff.mpr ⟨letter, text, rfl, announced⟩
    have same : (base : ℤ) = 0 ∨ (base : ℤ).toNat = radix := by simpa using matching
    have detected : detectBase ('0' :: letter :: text) base = .ok (radix, text, true) := by
      rw [detectBase, if_neg accepted, found]
      exact if_pos same
    have parsed : parseMagnitude invalid ('0' :: letter :: text) base = .ok m ↔
        parseDigits text radix true = some m := by
      simp [parseMagnitude_of_detected detected]
    rw [parsed, parseDigits_eq_some_iff]
    constructor
    · rintro ⟨digits, read | ⟨-, rest, rfl, read⟩, rfl⟩
      · exact .prefixed announced matching read
      · exact .separated announced matching read
    · intro magnitude
      cases magnitude with
      | digits nonzero read =>
        exact absurd read (announced.not_digits (by omega))
      | prefixed announced' _ read =>
        obtain rfl := announced.radix_unique announced'
        exact ⟨_, .inl read, rfl⟩
      | separated announced' _ read =>
        obtain rfl := announced.radix_unique announced'
        exact ⟨_, .inr ⟨rfl, _, rfl, read⟩, rfl⟩
      | decimal read => exact absurd read (announced.not_digits (le_max_left _ _))
      | zeros read => exact absurd read (announced.not_digits (le_max_left _ _))
  · have detected : detectBase rest base = .ok (if base = 0 then 10 else base, rest, false) := by
      rw [detectBase, if_neg accepted]
      cases found : prefixBase rest with
      | none => simp
      | some radix =>
        obtain ⟨letter, text, rfl, announced⟩ := prefixBase_eq_some_iff.mp found
        have differs : ¬(base = 0 ∨ base = radix) := fun matching ↦
          stripped ⟨letter, text, radix, rfl, announced, matching⟩
        have nonzero : base ≠ 0 := fun zero ↦ differs (.inl zero)
        simp only [Int.toNat_natCast, Nat.cast_eq_zero, if_neg differs, if_neg nonzero]
    have unprefixed : ∀ {letter text radix}, rest = '0' :: letter :: text →
        PrefixLetter letter radix → ¬(base = 0 ∨ base = radix) := fun shape announced matching ↦
      stripped ⟨_, _, _, shape, announced, matching⟩
    rcases Nat.eq_zero_or_pos base with rfl | positive
    · have parsed : parseMagnitude invalid rest ((0 : ℕ) : ℤ) = .ok m ↔
          parseDigits rest 10 false = some m ∧ decimalBaseZeroIsInvalid rest m = false := by
        rw [parseMagnitude_of_detected detected]
        simp
      rw [parsed, parseDigits_eq_some_iff]
      constructor
      · rintro ⟨⟨digits, read | ⟨⟨⟩, -⟩, rfl⟩, allowed⟩
        rcases (decimalBaseZeroIsInvalid_iff read).mp allowed with first | zeros
        · obtain ⟨char, text, -, rfl, -, -⟩ := read.exists_cons
          obtain ⟨digit, others, rfl, -⟩ := Digits.cons_iff.mp read
          exact .decimal read fun zero ↦ first (congrArg some zero)
        · rw [(value_eq_zero_iff (by decide)).mpr zeros]
          exact .zeros read zeros
      · intro magnitude
        cases magnitude with
        | digits nonzero => exact absurd rfl nonzero
        | prefixed announced matching => exact absurd matching (unprefixed rfl announced)
        | separated announced matching => exact absurd matching (unprefixed rfl announced)
        | decimal read nonzero =>
          refine ⟨⟨_, .inl read, rfl⟩, (decimalBaseZeroIsInvalid_iff read).mpr (.inl ?_)⟩
          exact fun zero ↦ nonzero (Option.some.inj zero)
        | zeros read zeros =>
          have zero := (value_eq_zero_iff (by decide : 10 ≠ 0)).mpr zeros
          refine ⟨⟨_, .inl read, zero⟩, ?_⟩
          rw [← zero]
          exact (decimalBaseZeroIsInvalid_iff read).mpr (.inr zeros)
    · have parsed : parseMagnitude invalid rest base = .ok m ↔
          parseDigits rest base false = some m := by
        simp [parseMagnitude_of_detected detected, positive.ne']
      rw [parsed, parseDigits_eq_some_iff]
      constructor
      · rintro ⟨digits, read | ⟨⟨⟩, -⟩, rfl⟩
        exact .digits positive.ne' read
      · intro magnitude
        cases magnitude with
        | digits _ read => exact ⟨_, .inl read, rfl⟩
        | prefixed announced matching => exact absurd matching (unprefixed rfl announced)
        | separated announced matching => exact absurd matching (unprefixed rfl announced)
        | decimal => cases positive
        | zeros => cases positive

/-! ## Sign and white space -/

theorem Magnitude.mem (magnitude : Magnitude base text m) :
    ∀ char ∈ text, char ∈ '_' :: (lowerDigits ++ upperDigits) := by
  have letters : ∀ {letter radix}, PrefixLetter letter radix →
      letter ∈ '_' :: (lowerDigits ++ upperDigits) := by
    rintro letter radix ⟨⟩ <;> decide
  cases magnitude with
  | digits _ read | decimal read | zeros read => exact read.mem
  | prefixed announced _ read =>
    exact List.forall_mem_cons.mpr ⟨by decide,
      List.forall_mem_cons.mpr ⟨letters announced, read.mem⟩⟩
  | separated announced _ read =>
    exact List.forall_mem_cons.mpr ⟨by decide, List.forall_mem_cons.mpr ⟨letters announced,
      List.forall_mem_cons.mpr ⟨by decide, read.mem⟩⟩⟩

theorem Magnitude.ne_nil (magnitude : Magnitude base text m) : text ≠ [] := by
  cases magnitude with
  | digits _ read | decimal read | zeros read =>
    rintro rfl
    exact not_digits_nil read
  | prefixed | separated => exact List.cons_ne_nil _ _

/-- The signed numbers are those that are read behind the sign. -/
theorem signed_iff {core : Text} :
    Signed base core n ↔ ∃ m : ℕ, Magnitude base (splitSign core).2 m ∧
      n = if (splitSign core).1 then -(m : ℤ) else m := by
  constructor
  · intro signed
    cases signed with
    | plus magnitude => exact ⟨_, magnitude, rfl⟩
    | minus magnitude => exact ⟨_, magnitude, rfl⟩
    | bare magnitude =>
      have unsigned : splitSign core = (false, core) := by
        unfold splitSign
        split
        · exact absurd (magnitude.mem '+' List.mem_cons_self) (by decide)
        · exact absurd (magnitude.mem '-' List.mem_cons_self) (by decide)
        · rfl
      rw [unsigned]
      exact ⟨_, magnitude, rfl⟩
  · rintro ⟨m, magnitude, rfl⟩
    unfold splitSign at magnitude ⊢
    split at magnitude
    · exact .plus magnitude
    · exact .minus magnitude
    · exact .bare magnitude

section

variable {core : Text} (signed : Signed base core n)
include signed

theorem Signed.mem :
    ∀ char ∈ core, char ∈ '+' :: '-' :: '_' :: (lowerDigits ++ upperDigits) := by
  have wider : ∀ char ∈ '_' :: (lowerDigits ++ upperDigits),
      char ∈ '+' :: '-' :: '_' :: (lowerDigits ++ upperDigits) := fun _ mem ↦
    List.mem_cons_of_mem _ (List.mem_cons_of_mem _ mem)
  cases signed with
  | bare magnitude => exact fun char mem ↦ wider char (magnitude.mem char mem)
  | plus magnitude | minus magnitude =>
    exact List.forall_mem_cons.mpr ⟨by decide, fun char mem ↦ wider char (magnitude.mem char mem)⟩

theorem Signed.isWhitespace :
    ∀ char ∈ core, isWhitespace char = false := fun char mem ↦ by
  have table : ('+' :: '-' :: '_' :: (lowerDigits ++ upperDigits)).all
    (fun char ↦ Package.isWhitespace char = false) = true := by decide
  exact of_decide_eq_true (List.all_eq_true.mp table char (signed.mem char mem))

theorem Signed.ne_nil : core ≠ [] := by
  cases signed with
  | bare magnitude => exact magnitude.ne_nil
  | plus | minus => exact List.cons_ne_nil _ _

end

/-- On ASCII, the white space of Unicode is that of the grammar. -/
theorem isWhitespace_iff (ascii : char.toNat < 128) : isWhitespace char = true ↔ char ∈ spaces := by
  have table : ∀ code < 128, isWhitespace (Char.ofNat code) = true ↔ Char.ofNat code ∈ spaces := by
    decide
  have entry := table char.toNat ascii
  rwa [Char.ofNat_toNat] at entry

theorem dropWhile_append {α : Type} {p : α → Bool} {front back : List α}
    (dropped : ∀ a ∈ front, p a = true) (kept : ∀ a ∈ back.head?, p a = false) :
    (front ++ back).dropWhile p = back := by
  rw [List.dropWhile_append_of_pos dropped]
  cases back with
  | nil => rfl
  | cons a back => exact List.dropWhile_cons_of_neg (by simp [kept a rfl])

theorem trim_append {lead core trail : Text} (before : ∀ char ∈ lead, isWhitespace char = true)
    (inside : ∀ char ∈ core, isWhitespace char = false)
    (after : ∀ char ∈ trail, isWhitespace char = true) (nonempty : core ≠ []) :
    trim (lead ++ core ++ trail) = core := by
  obtain ⟨first, rest, rfl⟩ := List.exists_cons_of_ne_nil nonempty
  have start : trimStart (lead ++ (first :: rest) ++ trail) = first :: rest ++ trail := by
    rw [List.append_assoc]
    refine dropWhile_append before ?_
    rintro char ⟨⟩
    exact inside first List.mem_cons_self
  rw [trim, start, List.reverse_append, dropWhile_append, List.reverse_reverse]
  · exact fun char mem ↦ after char (List.mem_reverse.mp mem)
  · exact fun char mem ↦ inside char (List.mem_reverse.mp (List.mem_of_mem_head? mem))

theorem exists_trim (text : Text) : ∃ lead trail, text = lead ++ trim text ++ trail ∧
    (∀ char ∈ lead, isWhitespace char = true) ∧ ∀ char ∈ trail, isWhitespace char = true := by
  refine ⟨text.takeWhile isWhitespace, ((trimStart text).reverse.takeWhile isWhitespace).reverse,
    ?_, fun char mem ↦ List.mem_takeWhile_imp mem, fun char mem ↦
      List.mem_takeWhile_imp (List.mem_reverse.mp mem)⟩
  rw [trim, List.append_assoc, ← List.reverse_append, List.takeWhile_append_dropWhile,
    List.reverse_reverse, trimStart, List.takeWhile_append_dropWhile]

theorem parseIntText_ok_iff_trim (valid : base = 0 ∨ 2 ≤ base ∧ base ≤ 36) :
    parseIntText text base = .ok n ↔ Signed base (trim text) n := by
  rw [signed_iff]
  unfold parseIntText
  by_cases blank : trim text = []
  · rw [if_pos blank, blank]
    simp only [reduceCtorEq, false_iff, not_exists, not_and]
    exact fun m magnitude ↦ absurd rfl magnitude.ne_nil
  rw [if_neg blank]
  by_cases bare : (splitSign (trim text)).2 = []
  · simp only [bare, if_true, reduceCtorEq, false_iff, not_exists, not_and]
    exact fun m magnitude ↦ absurd rfl magnitude.ne_nil
  simp only [if_neg bare, ← parseMagnitude_ok_iff (invalidIntLiteral text base) valid]
  cases parseMagnitude (invalidIntLiteral text base) (splitSign (trim text)).2 base <;>
    simp [bind, Except.bind, pure, Except.pure, eq_comm (a := n)]

/-! ## Literals -/

theorem literal_iff_trim (ascii : text.isAscii) :
    Literal base text n ↔ Signed base (trim text) n := by
  have codes : ∀ char ∈ text, char.toNat < 128 := fun char mem ↦ by
    have code := List.all_eq_true.mp ascii char mem
    exact UInt32.lt_iff_toNat_lt.mp (of_decide_eq_true code)
  constructor
  · rintro ⟨lead, core, trail, rfl, before, after, signed⟩
    rwa [trim_append (fun char mem ↦ ?_) signed.isWhitespace (fun char mem ↦ ?_) signed.ne_nil]
    · exact (isWhitespace_iff (codes char (by simp [mem]))).mpr (before char mem)
    · exact (isWhitespace_iff (codes char (by simp [mem]))).mpr (after char mem)
  · intro signed
    obtain ⟨lead, trail, shape, before, after⟩ := exists_trim text
    refine ⟨lead, trim text, trail, shape, fun char mem ↦ ?_, fun char mem ↦ ?_, signed⟩
    · exact (isWhitespace_iff (codes char (by rw [shape]; simp [mem]))).mp (before char mem)
    · exact (isWhitespace_iff (codes char (by rw [shape]; simp [mem]))).mp (after char mem)

theorem signed_intString (large : 2 ≤ base) (small : base ≤ 36) (n : ℤ) :
    Signed base (intString base n) n := by
  have magnitude : ∀ m, Magnitude base (digitString base m) m := fun m ↦ by
    obtain ⟨digits, read, same⟩ := digits_digitString large small m
    have written := Magnitude.digits (by omega : base ≠ 0) read
    rwa [same] at written
  cases n with
  | ofNat m => exact .bare (magnitude m)
  | negSucc m => exact .minus (magnitude (m + 1))

/-- `int` accepts the literals of the base with the integers that they denote, and among them the digit
strings of all integers. -/
theorem parseIntText_iff {base : ℕ} (valid : base = 0 ∨ 2 ≤ base ∧ base ≤ 36) :
    (∀ text : Text, text.isAscii → ∀ n, parseIntText text base = .ok n ↔ Literal base text n) ∧
      (base ≠ 0 → ∀ n, parseIntText (intString base n) base = .ok n) := by
  refine ⟨fun text ascii n ↦ ?_, fun nonzero n ↦ ?_⟩
  · rw [parseIntText_ok_iff_trim valid, literal_iff_trim ascii]
  · rw [parseIntText_ok_iff_trim valid]
    have signed := signed_intString (by omega : 2 ≤ base) (by omega) n
    have kept : trim (intString base n) = intString base n := by
      simpa using @trim_append [] _ [] (by simp) signed.isWhitespace (by simp)
        signed.ne_nil
    rwa [kept]

theorem parseIntText_iff_hexadecimal :
    (∀ text : Text, text.isAscii → ∀ n,
      parseIntText text ((16 : ℕ) : ℤ) = .ok n ↔ Literal 16 text n) ∧
      ((16 : ℕ) ≠ 0 → ∀ n, parseIntText (intString 16 n) ((16 : ℕ) : ℤ) = .ok n) :=
  parseIntText_iff (.inr (by decide))

end Pon.Number
