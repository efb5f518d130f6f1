import Mathlib.Data.List.TakeWhile
import Pon.Package.Names

/-!
# Operations on text

The operations of the standard library on strings that the package manager uses, on lists of
characters.
-/

namespace Pon.Package

/-- `strip_prefix`. -/
def stripPrefix (start text : Text) : Option Text :=
  if start.isPrefixOf text then some (text.drop start.length) else none

/-- `strip_suffix`. -/
def stripSuffix (ending text : Text) : Option Text :=
  if ending.isSuffixOf text then some (text.take (text.length - ending.length)) else none

/-- `trim_end_matches`: strips an ending as often as it occurs, up to a number of times. -/
def trimEndMatches (ending : Text) : ℕ → Text → Text
  | 0, text => text
  | fuel + 1, text =>
      match stripSuffix ending text with
      | some rest => trimEndMatches ending fuel rest
      | none => text

/-- `split_once`: the parts before and after the first occurrence of a character. -/
def splitOnce (separator : Char) (text : Text) : Option (Text × Text) :=
  if separator ∈ text then
    some (text.takeWhile (· ≠ separator), (text.dropWhile (· ≠ separator)).drop 1)
  else none

/-- `rsplit_once`: the parts before and after the last occurrence of a character. -/
def rsplitOnce (separator : Char) (text : Text) : Option (Text × Text) :=
  (splitOnce separator text.reverse).map fun parts ↦ (parts.2.reverse, parts.1.reverse)

def trimEnd (text : Text) : Text :=
  (text.reverse.dropWhile isWhitespace).reverse

/-- A line without its carriage return. -/
def chomp (line : Text) : Text :=
  if line.getLast? = some '\r' then line.dropLast else line

/-- `lines`: the last line may lack its end, and then keeps its carriage return. -/
def lines (text : Text) : List Text :=
  let pieces := text.splitOn '\n'
  pieces.dropLast.map chomp ++ (pieces.getLast?.filter (· ≠ [])).toList

def toAsciiLowercase (text : Text) : Text :=
  text.map Char.toLower

def eqIgnoreAsciiCase (a b : Text) : Bool :=
  toAsciiLowercase a == toAsciiLowercase b

/-- The value of a decimal digit. -/
def digitValue (c : Char) : Option ℕ :=
  if '0' ≤ c ∧ c ≤ '9' then some (c.toNat - '0'.toNat) else none

def parseDigits (value : ℕ) : Text → Option ℕ
  | [] => some value
  | c :: rest => do parseDigits (10 * value + (← digitValue c)) rest

/-- `parse` for an unsigned integer below a bound: decimal digits, with an optional sign. -/
def parseUnsigned (bound : ℕ) (text : Text) : Option ℕ :=
  let digits := (stripPrefix ['+'] text).getD text
  if digits = [] then none
  else (parseDigits 0 digits).filter fun value ↦ decide (value < bound)

/-- `to_string` of an unsigned integer. -/
def decimal (n : ℕ) : Text :=
  Nat.toDigits 10 n

theorem stripPrefix_eq_some {start text rest : Text} :
    stripPrefix start text = some rest ↔ text = start ++ rest := by
  unfold stripPrefix
  constructor
  · intro h
    split at h
    · rename_i hstart
      obtain ⟨other, rfl⟩ := List.isPrefixOf_iff_prefix.mp hstart
      rw [List.drop_left] at h
      rw [Option.some.inj h]
    · cases h
  · rintro rfl
    rw [if_pos (List.isPrefixOf_iff_prefix.mpr (List.prefix_append _ _)), List.drop_left]

theorem splitOnce_eq_some {separator : Char} {text before after : Text} :
    splitOnce separator text = some (before, after) ↔
      text = before ++ separator :: after ∧ separator ∉ before := by
  constructor
  · intro h
    unfold splitOnce at h
    split at h
    · rename_i hmem
      simp only [Option.some.injEq, Prod.mk.injEq] at h
      obtain ⟨rfl, rfl⟩ := h
      have hne : text.dropWhile (· ≠ separator) ≠ [] := by
        intro hnil
        simpa using List.dropWhile_eq_nil_iff.mp hnil separator hmem
      obtain ⟨first, rest, hdrop⟩ := List.exists_cons_of_ne_nil hne
      have hfirst : first = separator := by
        have hhead := List.head?_dropWhile_not (fun c ↦ decide (c ≠ separator)) text
        rw [hdrop] at hhead
        simpa using hhead
      constructor
      · conv_lhs => rw [← List.takeWhile_append_dropWhile (p := (· ≠ separator)) (l := text)]
        rw [hdrop, hfirst]
        rfl
      · intro hin
        simpa using List.mem_takeWhile_imp hin
    · cases h
  · rintro ⟨rfl, hbefore⟩
    unfold splitOnce
    rw [if_pos (by simp)]
    have hall : ∀ c ∈ before, decide (c ≠ separator) = true := by
      intro c hc
      simpa using fun heq : c = separator ↦ hbefore (heq ▸ hc)
    rw [List.takeWhile_append_of_pos hall, List.dropWhile_append_of_pos hall]
    simp

theorem chomp_eq_self {line : Text} (h : line.getLast? ≠ some '\r') : chomp line = line :=
  if_neg h

theorem chomp_append {front back : Text} (h : back ≠ []) : chomp (front ++ back) = front ++ chomp back := by
  unfold chomp
  rw [List.getLast?_append_of_ne_nil front h, List.dropLast_append_of_ne_nil h]
  split_ifs <;> rfl

theorem lines_nil : lines [] = [] := rfl

/-- The text up to the first line feed is the first line. -/
theorem lines_append_newline {line : Text} (h : '\n' ∉ line) (rest : Text) :
    lines (line ++ '\n' :: rest) = chomp line :: lines rest := by
  have pieces : rest.splitOn '\n' ≠ [] := List.splitOn_ne_nil _ _
  simp only [lines]
  rw [List.splitOn_append_cons_self_of_not_mem h, List.dropLast_cons_of_ne_nil pieces, List.map_cons,
    List.cons_append, List.getLast?_cons_of_ne_nil pieces]

theorem parseDigits_eq {digits : Text} (h : ∀ c ∈ digits, c.isDigit = true) (value : ℕ) :
    parseDigits value digits = some (Nat.ofDigitChars 10 digits value) := by
  induction digits generalizing value with
  | nil => rfl
  | cons c rest ih =>
    obtain ⟨isDigit, digits⟩ := List.forall_mem_cons.mp h
    have between : '0' ≤ c ∧ c ≤ '9' := by
      rw [Char.isDigit, Bool.and_eq_true, decide_eq_true_eq, decide_eq_true_eq] at isDigit
      exact isDigit
    have found : digitValue c = some (c.toNat - '0'.toNat) := if_pos between
    rw [parseDigits, found, Option.bind_eq_bind, Option.bind_some, ih digits]
    rfl

theorem isDigit_of_mem_decimal {n : ℕ} {c : Char} (h : c ∈ decimal n) : c.isDigit = true :=
  Nat.isDigit_of_mem_toDigits (by decide) (by decide) h

theorem parseUnsigned_decimal {bound n : ℕ} (h : n < bound) : parseUnsigned bound (decimal n) = some n := by
  have unsigned : stripPrefix ['+'] (decimal n) = none := by
    rw [Option.eq_none_iff_forall_ne_some]
    intro rest signed
    have sign : '+' ∈ decimal n := by
      rw [stripPrefix_eq_some.mp signed]
      exact List.mem_cons_self
    exact absurd (isDigit_of_mem_decimal sign) (by decide)
  have value : parseDigits 0 (decimal n) = some n := by
    rw [parseDigits_eq fun c ↦ isDigit_of_mem_decimal, decimal, Nat.ofDigitChars_ten_toDigits]
  have digits : decimal n ≠ [] := Nat.toDigits_ne_nil
  simp [parseUnsigned, unsigned, digits, value, h]

end Pon.Package
