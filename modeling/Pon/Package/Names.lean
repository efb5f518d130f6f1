import Mathlib.Data.List.Basic

/-!
# Text and distribution names

Text is the list of its characters; where the source works on bytes, it is encoded as UTF-8 first.
Distribution names are compared after PEP 503 normalization. On text outside ASCII the normalization
writes every byte as a character of its own, so that it is idempotent on ASCII text only.
-/

namespace Pon.Package

abbrev Text := List Char

instance : LawfulBEq Text := inferInstance

/-- The UTF-8 bytes of a text. -/
def Text.bytes (text : Text) : List UInt8 :=
  text.flatMap String.utf8EncodeChar

def Text.isAscii (text : Text) : Bool :=
  text.all fun c ↦ decide (c.val < 128)

/-- `char::is_whitespace`, the Unicode property `White_Space`. -/
def isWhitespace (c : Char) : Bool :=
  let code := c.toNat
  (9 ≤ code && code ≤ 13) || code == 0x20 || code == 0x85 || code == 0xA0 || code == 0x1680 ||
    (0x2000 ≤ code && code ≤ 0x200A) || code == 0x2028 || code == 0x2029 || code == 0x202F ||
    code == 0x205F || code == 0x3000

def trimStart (text : Text) : Text :=
  text.dropWhile isWhitespace

def trim (text : Text) : Text :=
  ((trimStart text).reverse.dropWhile isWhitespace).reverse

def isUpper (byte : UInt8) : Bool := 65 ≤ byte && byte ≤ 90

def isLower (byte : UInt8) : Bool := 97 ≤ byte && byte ≤ 122

def isDigit (byte : UInt8) : Bool := 48 ≤ byte && byte ≤ 57

/-- The bytes `-`, `_` and `.`. -/
def isSeparator (byte : UInt8) : Bool := byte == 45 || byte == 95 || byte == 46

def byteChar (byte : UInt8) : Char := Char.ofNat byte.toNat

/-- The rest of a normalized name; `lastWasSeparator` tells whether a separator has just been
written. -/
def normalizeFrom (lastWasSeparator : Bool) : List UInt8 → Text
  | [] => []
  | byte :: rest =>
      if isUpper byte then byteChar (byte + 32) :: normalizeFrom false rest
      else if isLower byte || isDigit byte then byteChar byte :: normalizeFrom false rest
      else if isSeparator byte then
        if lastWasSeparator then normalizeFrom true rest else '-' :: normalizeFrom true rest
      else byteChar byte :: normalizeFrom lastWasSeparator rest

def normalize (name : Text) : Text :=
  normalizeFrom false name.bytes

def isAlphanumeric (byte : UInt8) : Bool := isUpper byte || isLower byte || isDigit byte

/-- `validate`: the grammar of project names. -/
def isValidName (name : Text) : Bool :=
  let bytes := name.bytes
  !bytes.isEmpty && bytes.all (fun byte ↦ isAlphanumeric byte || isSeparator byte) &&
    bytes.head?.any isAlphanumeric && bytes.getLast?.any isAlphanumeric

/-- A normalized distribution name. -/
abbrev PackageName := { name : Text // normalize name = name }

instance : LawfulBEq PackageName := inferInstance

variable {c : Char} {byte : UInt8} {name : Text}

theorem eq_of_mem_utf8EncodeChar (h : byte ∈ String.utf8EncodeChar c) (hascii : byte.toNat < 128) :
    c.toNat = byte.toNat := by
  unfold String.utf8EncodeChar at h
  dsimp only at h
  split at h
  · rename_i hsmall
    rw [List.mem_singleton.mp h]
    simp only [UInt8.toNat_ofNat']
    exact (Nat.mod_eq_of_lt (a := c.val.toNat) (by omega)).symm
  · exfalso
    split at h
    · simp only [List.mem_cons, List.not_mem_nil, or_false] at h
      rcases h with rfl | rfl <;> simp only [UInt8.toNat_ofNat'] at hascii <;> omega
    · split at h
      · simp only [List.mem_cons, List.not_mem_nil, or_false] at h
        rcases h with rfl | rfl | rfl <;> simp only [UInt8.toNat_ofNat'] at hascii <;> omega
      · simp only [List.mem_cons, List.not_mem_nil, or_false] at h
        rcases h with rfl | rfl | rfl | rfl <;> simp only [UInt8.toNat_ofNat'] at hascii <;> omega

/-- Where the characters of a normalized name come from. -/
theorem mem_normalizeFrom {last : Bool} {bytes : List UInt8} (h : c ∈ normalizeFrom last bytes) :
    c = '-' ∨ ∃ byte ∈ bytes,
      isUpper byte = true ∧ c = byteChar (byte + 32) ∨ isSeparator byte = false ∧ c = byteChar byte := by
  induction bytes generalizing last with
  | nil => cases h
  | cons byte rest ih =>
    have hrest : ∀ last, c ∈ normalizeFrom last rest → c = '-' ∨ ∃ other ∈ byte :: rest,
        isUpper other = true ∧ c = byteChar (other + 32) ∨
          isSeparator other = false ∧ c = byteChar other := by
      intro last hin
      rcases ih hin with hdash | ⟨other, hother, hfrom⟩
      · exact Or.inl hdash
      · exact Or.inr ⟨other, List.mem_cons_of_mem _ hother, hfrom⟩
    unfold normalizeFrom at h
    by_cases hupper : isUpper byte = true
    · rw [if_pos hupper] at h
      rcases List.mem_cons.mp h with rfl | hin
      · exact Or.inr ⟨byte, List.mem_cons_self, Or.inl ⟨hupper, rfl⟩⟩
      · exact hrest _ hin
    · rw [if_neg hupper] at h
      cases hseparator : isSeparator byte with
      | true =>
        have hplain : ¬ (isLower byte || isDigit byte) = true := by
          unfold isSeparator at hseparator
          unfold isLower isDigit
          simp only [Bool.or_eq_true, Bool.and_eq_true, decide_eq_true_eq, beq_iff_eq] at *
          rcases hseparator with (rfl | rfl) | rfl <;> decide
        rw [if_neg hplain, if_pos hseparator] at h
        split at h
        · exact hrest _ h
        · rcases List.mem_cons.mp h with rfl | hin
          · exact Or.inl rfl
          · exact hrest _ hin
      | false =>
        split at h
        · rcases List.mem_cons.mp h with rfl | hin
          · exact Or.inr ⟨byte, List.mem_cons_self, Or.inr ⟨hseparator, rfl⟩⟩
          · exact hrest _ hin
        · rw [if_neg (by simp [hseparator])] at h
          rcases List.mem_cons.mp h with rfl | hin
          · exact Or.inr ⟨byte, List.mem_cons_self, Or.inr ⟨hseparator, rfl⟩⟩
          · exact hrest _ hin

theorem toNat_byteChar (byte : UInt8) : (byteChar byte).toNat = byte.toNat := by
  have small := byte.toNat_lt
  have valid : byte.toNat.isValidChar := Or.inl (by omega)
  rw [byteChar, Char.ofNat, dif_pos valid]
  rfl

theorem byteChar_inj {other : UInt8} (h : byteChar byte = byteChar other) : byte = other := by
  apply UInt8.toNat_inj.mp
  rw [← toNat_byteChar byte, h, toNat_byteChar]

/-- The bytes that lower-case letters are made of lie above the separators. -/
theorem isUpper_add (byte : UInt8) (h : isUpper byte = true) : 97 ≤ (byte + 32).toNat := by
  rw [isUpper, Bool.and_eq_true, decide_eq_true_eq, decide_eq_true_eq, UInt8.le_iff_toNat_le,
    UInt8.le_iff_toNat_le] at h
  have low : 65 ≤ byte.toNat := h.1
  have high : byte.toNat ≤ 90 := h.2
  rw [UInt8.toNat_add]
  change 97 ≤ (byte.toNat + 32) % 256
  omega

theorem not_dot_of_mem_normalize : '.' ∉ normalize name := by
  intro h
  rcases mem_normalizeFrom h with hdash | ⟨byte, _, ⟨hupper, heq⟩ | ⟨hseparator, heq⟩⟩
  · cases hdash
  · have hletter := isUpper_add byte hupper
    rw [(byteChar_inj heq.symm : byte + 32 = 46)] at hletter
    exact absurd hletter (by decide)
  · rw [(byteChar_inj heq.symm : byte = 46)] at hseparator
    cases hseparator

theorem not_slash_of_mem_normalize (hname : '/' ∉ name) : '/' ∉ normalize name := by
  intro h
  rcases mem_normalizeFrom h with hdash | ⟨byte, hbyte, ⟨hupper, heq⟩ | ⟨_, heq⟩⟩
  · cases hdash
  · have hletter := isUpper_add byte hupper
    rw [(byteChar_inj heq.symm : byte + 32 = 47)] at hletter
    exact absurd hletter (by decide)
  · obtain ⟨c, hc, hin⟩ := List.mem_flatMap.mp hbyte
    rw [(byteChar_inj heq.symm : byte = 47)] at hin
    have hcode := eq_of_mem_utf8EncodeChar hin (by decide)
    have hslash : c = '/' := Char.toNat_inj.mp hcode
    exact hname (hslash ▸ hc)

end Pon.Package
