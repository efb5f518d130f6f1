import Mathlib.Data.Nat.Digits.Defs

/-!
# Numerals with separators

Digit strings in the bases up to 36, in which single underscores may stand between two digits.
-/

namespace Pon.Numeral

def lowerDigits : List Char :=
  ['0', '1', '2', '3', '4', '5', '6', '7', '8', '9', 'a', 'b', 'c', 'd', 'e', 'f', 'g', 'h', 'i', 'j',
    'k', 'l', 'm', 'n', 'o', 'p', 'q', 'r', 's', 't', 'u', 'v', 'w', 'x', 'y', 'z']

def upperDigits : List Char :=
  ['0', '1', '2', '3', '4', '5', '6', '7', '8', '9', 'A', 'B', 'C', 'D', 'E', 'F', 'G', 'H', 'I', 'J',
    'K', 'L', 'M', 'N', 'O', 'P', 'Q', 'R', 'S', 'T', 'U', 'V', 'W', 'X', 'Y', 'Z']

/-- A character is the digit of a value, in lower or in upper case. -/
def IsDigit (char : Char) (digit : ℕ) : Prop :=
  lowerDigits[digit]? = some char ∨ upperDigits[digit]? = some char

instance (char : Char) (digit : ℕ) : Decidable (IsDigit char digit) :=
  inferInstanceAs (Decidable (_ ∨ _))

variable {digit : ℕ}

theorem IsDigit.mem {char : Char} (h : IsDigit char digit) : char ∈ lowerDigits ++ upperDigits := by
  rw [List.mem_append]
  exact h.imp List.mem_of_getElem? List.mem_of_getElem?

theorem IsDigit.lt {char : Char} (h : IsDigit char digit) : digit < 36 := by
  rcases h with h | h <;> exact (List.getElem?_eq_some_iff.mp h).1

/-- Digits of a base, each two of them with at most one underscore between. -/
inductive Digits (base : ℕ) : List Char → List ℕ → Prop where
  | last {char digit} : IsDigit char digit → digit < base → Digits base [char] [digit]
  | cons {char digit text digits} : IsDigit char digit → digit < base → Digits base text digits →
    Digits base (char :: text) (digit :: digits)
  | separated {char digit text digits} : IsDigit char digit → digit < base →
    Digits base text digits → Digits base (char :: '_' :: text) (digit :: digits)

/-- What may stand behind a digit. -/
def Rest (base : ℕ) (text : List Char) (digits : List ℕ) : Prop :=
  (text = [] ∧ digits = []) ∨ Digits base text digits ∨
    ∃ text', text = '_' :: text' ∧ Digits base text' digits

/-- The value of a digit string, most significant digit first. -/
def value (base : ℕ) (digits : List ℕ) : ℕ := Nat.ofDigits base digits.reverse

section Grammar

variable {base : ℕ} {text : List Char} {digits : List ℕ}

theorem Digits.cons_iff {char : Char} :
    Digits base (char :: text) digits ↔ ∃ digit rest,
      digits = digit :: rest ∧ IsDigit char digit ∧ digit < base ∧ Rest base text rest := by
  constructor
  · intro read
    cases read with
    | last is small => exact ⟨_, _, rfl, is, small, .inl ⟨rfl, rfl⟩⟩
    | cons is small rest => exact ⟨_, _, rfl, is, small, .inr (.inl rest)⟩
    | separated is small rest => exact ⟨_, _, rfl, is, small, .inr (.inr ⟨_, rfl, rest⟩)⟩
  · rintro ⟨digit, rest, rfl, is, small, ⟨rfl, rfl⟩ | read | ⟨text', rfl, read⟩⟩
    · exact .last is small
    · exact .cons is small read
    · exact .separated is small read

theorem not_isDigit_underscore (digit : ℕ) : ¬IsDigit '_' digit := fun h ↦
  absurd h.mem (by decide)

theorem not_digits_nil : ¬Digits base [] digits := by
  rintro ⟨⟩

theorem not_digits_underscore : ¬Digits base ('_' :: text) digits := by
  rw [Digits.cons_iff]
  rintro ⟨digit, -, -, is, -⟩
  exact not_isDigit_underscore digit is

/-- A numeral starts with a digit. -/
theorem Digits.exists_cons (read : Digits base text digits) :
    ∃ char text' digit, text = char :: text' ∧ IsDigit char digit ∧ digit < base := by
  cases text with
  | nil => exact absurd read not_digits_nil
  | cons char text' =>
    obtain ⟨digit, -, -, is, small, -⟩ := Digits.cons_iff.mp read
    exact ⟨char, text', digit, rfl, is, small⟩

theorem Digits.mem (read : Digits base text digits) :
    ∀ char ∈ text, char ∈ '_' :: (lowerDigits ++ upperDigits) := by
  induction read with
  | last is small => simpa using .inr (List.mem_append.mp is.mem)
  | cons is small read ih =>
    exact List.forall_mem_cons.mpr ⟨List.mem_cons_of_mem _ is.mem, ih⟩
  | separated is small read ih =>
    exact List.forall_mem_cons.mpr ⟨List.mem_cons_of_mem _ is.mem,
      List.forall_mem_cons.mpr ⟨List.mem_cons_self, ih⟩⟩

end Grammar

/-- The value of a digit string is collected from left to right. -/
theorem foldl_eq (base start : ℕ) (digits : List ℕ) :
    digits.foldl (fun value digit ↦ value * base + digit) start =
      start * base ^ digits.length + value base digits := by
  induction digits generalizing start with
  | nil => simp [value]
  | cons digit digits ih =>
    rw [List.foldl_cons, ih, value, value, List.reverse_cons, Nat.ofDigits_append,
      Nat.ofDigits_singleton, List.length_reverse, List.length_cons]
    ring

def digitChar (digit : ℕ) : Char := lowerDigits.getD digit '0'

/-- The shortest digit string of a number. -/
def digitString (base n : ℕ) : List Char :=
  if n = 0 then ['0'] else (Nat.digits base n).reverse.map digitChar

theorem isDigit_digitChar (small : digit < 36) : IsDigit (digitChar digit) digit := by
  have inside : digit < lowerDigits.length := small
  left
  simp [digitChar, List.getElem?_eq_getElem inside]

theorem digits_map {base : ℕ} (small : base ≤ 36) {digits : List ℕ} (nonempty : digits ≠ [])
    (below : ∀ digit ∈ digits, digit < base) : Digits base (digits.map digitChar) digits := by
  induction digits with
  | nil => exact absurd rfl nonempty
  | cons digit digits ih =>
    obtain ⟨first, rest⟩ := List.forall_mem_cons.mp below
    have is : IsDigit (digitChar digit) digit := isDigit_digitChar (first.trans_le small)
    rcases eq_or_ne digits [] with rfl | more
    · exact .last is first
    · exact .cons is first (ih more rest)

theorem digits_digitString {base : ℕ} (large : 2 ≤ base) (small : base ≤ 36) (n : ℕ) :
    ∃ digits, Digits base (digitString base n) digits ∧ value base digits = n := by
  rcases eq_or_ne n 0 with rfl | nonzero
  · exact ⟨[0], .last (isDigit_digitChar (by decide)) (by omega), Nat.ofDigits_singleton⟩
  · refine ⟨(Nat.digits base n).reverse, ?_, ?_⟩
    · rw [digitString, if_neg nonzero]
      refine digits_map small ?_ fun digit mem ↦ ?_
      · rw [Ne, List.reverse_eq_nil_iff]
        exact Nat.digits_ne_nil_iff_ne_zero.mpr nonzero
      · exact Nat.digits_lt_base large (List.mem_reverse.mp mem)
    · rw [value, List.reverse_reverse, Nat.ofDigits_digits]

end Pon.Numeral
