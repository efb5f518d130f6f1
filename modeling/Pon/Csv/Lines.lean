import Mathlib.Data.List.SplitBy

/-!
# Lines of a record

The text of a record is cut into lines behind its line breaks, and not inside of its terminator.
-/

namespace Pon.Csv

def IsLineBreak (c : Char) : Prop := c = '\r' ∨ c = '\n'

/-- A line follows another behind a line break, and not between a carriage return and a line feed. -/
def Follows (line next : List Char) : Prop :=
  ∃ front c, line = front ++ [c] ∧ IsLineBreak c ∧ ¬(c = '\r' ∧ next.head? = some '\n')

/-- Lines of a text, or the rest of a line and the lines behind it. -/
structure LinesOf (text : List Char) (lines : List (List Char)) : Prop where
  nonempty : ∀ line ∈ lines, line ≠ []
  chain : lines.IsChain Follows
  join : lines.flatten = text

variable {lines : List (List Char)}

theorem LinesOf.eq_nil (cut : LinesOf [] lines) : lines = [] := by
  cases lines with
  | nil => rfl
  | cons line lines =>
    exact absurd (List.append_eq_nil_iff.mp cut.join).1 (cut.nonempty line List.mem_cons_self)

variable {text : List Char}

/-- Behind a character the line goes on, or there is a line break and the next line. -/
theorem LinesOf.advance {c : Char}
    (cut : LinesOf (c :: text) lines) : ∃ line rest, lines = (c :: line) :: rest ∧
      (line ≠ [] ∧ LinesOf text (line :: rest) ∨
        line = [] ∧ LinesOf text rest ∧
          (text ≠ [] → IsLineBreak c ∧ ¬(c = '\r' ∧ text.head? = some '\n'))) := by
  obtain ⟨nonempty, chain, join⟩ := cut
  cases lines with
  | nil => exact nomatch join
  | cons line rest =>
    cases line with
    | nil => exact absurd rfl (nonempty [] List.mem_cons_self)
    | cons first line =>
      obtain ⟨rfl, joined⟩ := List.cons.inj join
      refine ⟨line, rest, rfl, ?_⟩
      have later : ∀ line ∈ rest, line ≠ [] := fun line member ↦
        nonempty line (List.mem_cons_of_mem _ member)
      cases line with
      | nil =>
        refine Or.inr ⟨rfl, ⟨later, chain.of_cons, joined⟩, fun more ↦ ?_⟩
        cases rest with
        | nil => exact absurd joined.symm more
        | cons next rest =>
          obtain ⟨front, c, split, isBreak, together⟩ := (List.isChain_cons_cons.mp chain).1
          cases front with
          | cons other front =>
            exact absurd (List.cons.inj split).2.symm (List.append_ne_nil_of_right_ne_nil _ nofun)
          | nil =>
            obtain ⟨rfl, -⟩ := List.cons.inj split
            refine ⟨isBreak, fun both ↦ together ⟨both.1, ?_⟩⟩
            cases next with
            | nil => exact absurd rfl (later [] List.mem_cons_self)
            | cons head next =>
              have split : head :: (next ++ rest.flatten) = text := joined
              rw [← split] at both
              exact both.2
      | cons second line =>
        refine Or.inl ⟨nofun, ⟨List.forall_mem_cons.mpr ⟨nofun, later⟩, ?_, joined⟩⟩
        cases rest with
        | nil => exact List.isChain_singleton _
        | cons next rest =>
          obtain ⟨follows, chain⟩ := List.isChain_cons_cons.mp chain
          refine List.isChain_cons_cons.mpr ⟨?_, chain⟩
          obtain ⟨front, c, split, isBreak, together⟩ := follows
          cases front with
          | nil => exact nomatch (List.cons.inj split).2
          | cons other front => exact ⟨front, c, (List.cons.inj split).2, isBreak, together⟩

/-- The lines of a text whose line breaks are kept as they are. -/
def textLines (text : List Char) : List (List Char) :=
  text.splitBy fun c next ↦ if c = '\r' then next = '\n' else c ≠ '\n'

theorem linesOf_textLines (text : List Char) : LinesOf text (textLines text) where
  nonempty _ := List.ne_nil_of_mem_splitBy
  chain := by
    refine (List.isChain_getLast_head_splitBy _ text).imp fun line next ⟨more, later, cut⟩ ↦ ?_
    refine ⟨line.dropLast, line.getLast more, (List.dropLast_append_getLast more).symm, ?_⟩
    rw [List.head?_eq_some_head later, IsLineBreak]
    split_ifs at cut <;> simp_all
  join := List.flatten_splitBy _ text

/-- A line break at the end of a text. -/
def Terminator (text : List Char) : Prop := text = ['\r', '\n'] ∨ text = ['\n'] ∨ text = ['\r']

theorem Terminator.cons (terminator : Terminator text) :
    ∃ c rest, text = c :: rest ∧ IsLineBreak c := by
  obtain rfl | rfl | rfl := terminator
  · exact ⟨'\r', ['\n'], rfl, Or.inl rfl⟩
  · exact ⟨'\n', [], rfl, Or.inr rfl⟩
  · exact ⟨'\r', [], rfl, Or.inl rfl⟩

theorem LinesOf.terminator (cut : LinesOf text lines)
    (terminator : Terminator text) : lines = [text] := by
  have single {c : Char} {lines : List (List Char)} (cut : LinesOf [c] lines) : lines = [[c]] := by
    obtain ⟨line, rest, rfl, ⟨more, cut⟩ | ⟨rfl, cut, -⟩⟩ := cut.advance
    · exact absurd (List.append_eq_nil_iff.mp cut.join).1 more
    · rw [cut.eq_nil]
  obtain rfl | rfl | rfl := terminator
  · obtain ⟨line, rest, rfl, ⟨-, cut⟩ | ⟨rfl, -, together⟩⟩ := cut.advance
    · obtain ⟨rfl, rfl⟩ := List.cons.inj (single cut)
      rfl
    · exact absurd ⟨rfl, rfl⟩ (together nofun).2
  · exact single cut
  · exact single cut

end Pon.Csv
