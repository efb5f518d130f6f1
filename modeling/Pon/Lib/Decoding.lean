import Mathlib.Data.List.Basic
import Mathlib.Data.Vector.Defs

/-!
# Decoders over a list of words

A decoder reads words at positions that it computes. It ends with a value or with an error of its
own; reading outside the list and running out of fuel are outcomes of the model, and the rules for
`Ensures` show that neither is reached.
-/

namespace Pon.Decoding

/-- Why a decoder has no value. -/
inductive Failure (ε : Type)
  | error (error : ε)
  | outOfBounds
  | outOfFuel
deriving DecidableEq

abbrev Decoder (ε α : Type) := Except (Failure ε) α

variable {ω ε α β : Type}

/-- The decoder's own error. -/
def fail (error : ε) : Decoder ε α := .error (.error error)

/-- `words[index]`. -/
def read (words : List ω) (index : ℕ) : Decoder ε ω :=
  match words[index]? with
  | some word => pure word
  | none => .error .outOfBounds

/-- `words[start..start + count]`. -/
def slice (words : List ω) (start count : ℕ) : Decoder ε (List.Vector ω count) :=
  if h : start + count ≤ words.length then
    pure ⟨(words.drop start).take count, by rw [List.length_take, List.length_drop]; omega⟩
  else .error .outOfBounds

variable {d : Decoder ε α} {f : α → Decoder ε β} {a : α} {words : List ω} {post : α → Prop}

theorem bind_eq_ok {b : β} : (d >>= f) = .ok b ↔ ∃ a, d = .ok a ∧ f a = .ok b := by
  cases d <;> simp [bind, Except.bind]

@[simp]
theorem pure_bind_eq : ((Except.ok a : Decoder ε α) >>= f) = f a := rfl

variable {error : ε} {index start count : ℕ}

@[simp]
theorem fail_ne_ok : (fail error : Decoder ε α) ≠ .ok a := nofun

theorem read_eq_ok {word : ω} (h : words[index]? = some word) :
    (read words index : Decoder ε ω) = .ok word := by
  simp only [read, h]
  rfl

theorem slice_eq_ok {found : List.Vector ω count} {after : List ω} (hpos : 0 < count)
    (h : words.drop start = found.val ++ after) :
    (slice words start count : Decoder ε (List.Vector ω count)) = .ok found := by
  have hlength := congrArg List.length h
  have hcount : found.val.length = count := found.property
  rw [List.length_drop, List.length_append, hcount] at hlength
  have htake : (words.drop start).take count = found.val := by
    rw [h, List.take_left' hcount]
  unfold slice
  rw [dif_pos (by omega)]
  exact congrArg Except.ok (Subtype.ext htake)

/-- The decoder ends with a value that meets `post` or with an error of its own. -/
def Ensures (d : Decoder ε α) (post : α → Prop) : Prop :=
  match d with
  | .ok a => post a
  | .error (.error _) => True
  | .error _ => False

theorem Ensures.pure (h : post a) : Ensures (Pure.pure a : Decoder ε α) post := h

theorem Ensures.fail : Ensures (fail error : Decoder ε α) post := trivial

theorem Ensures.mono {pre : α → Prop} (hd : Ensures d pre) (h : ∀ a, pre a → post a) :
    Ensures d post := by
  match d, hd with
  | .ok a, hd => exact h a hd
  | .error (.error _), _ => trivial

theorem Ensures.bind {middle : α → Prop} {post : β → Prop} (hd : Ensures d middle)
    (hf : ∀ a, middle a → Ensures (f a) post) :
    Ensures (d >>= f) post := by
  match d, hd with
  | .ok a, hd => exact hf a hd
  | .error (.error _), _ => trivial

theorem Ensures.ite {c : Prop} [Decidable c] {d' : Decoder ε α} (hd : c → Ensures d post)
    (hd' : ¬c → Ensures d' post) :
    Ensures (if c then d else d') post := by
  by_cases h : c
  · rw [if_pos h]; exact hd h
  · rw [if_neg h]; exact hd' h

theorem Ensures.read (h : index < words.length) :
    Ensures (read words index : Decoder ε ω) fun word ↦ words[index]? = some word := by
  simp only [Decoding.read, List.getElem?_eq_getElem h]
  exact Ensures.pure rfl

theorem Ensures.slice (h : start + count ≤ words.length) :
    Ensures (slice words start count : Decoder ε (List.Vector ω count)) fun _ ↦ True := by
  unfold Decoding.slice
  rw [dif_pos h]
  trivial

/-- A decoder that ensures anything has a value or an error of its own. -/
theorem Ensures.outcome (h : Ensures d post) :
    (∃ a, d = .ok a ∧ post a) ∨ ∃ error, d = .error (.error error) := by
  match d, h with
  | .ok a, h => exact .inl ⟨a, rfl, h⟩
  | .error (.error error), _ => exact .inr ⟨error, rfl⟩

end Pon.Decoding
