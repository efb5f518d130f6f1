import Pon.Sre.Decode

/-!
# The decoder always answers

For every list of words the decoder ends with a tree or with one of its errors. A node ends after
the word where it starts, within the list, and every recursive call starts after that word; so the
number of words from the start on bounds the recursion.
-/

namespace Pon.Sre

open Decoding

variable {code : List Word} {sequence : ℕ → ℕ → Parse (List Node × ℕ)} {fuel pc : ℕ}

/-- What is read at `pc` ends after `pc` and within the words. -/
def Advances {α : Type} (code : List Word) (pc : ℕ) (result : α × ℕ) : Prop :=
  pc < result.2 ∧ result.2 ≤ code.length

/-- The recursive calls answer wherever they start after `pc`. -/
def Answers (code : List Word) (pc : ℕ) (sequence : ℕ → ℕ → Parse (List Node × ℕ)) : Prop :=
  ∀ start stop, pc < start → start ≤ code.length → stop ≤ code.length →
    Ensures (sequence start stop) fun _ ↦ True

theorem need_ensures {needed : ℕ} :
    Ensures (need code pc needed) fun _ ↦ pc + needed ≤ code.length :=
  Ensures.ite (fun h ↦ Ensures.pure (a := ()) h) fun _ ↦ Ensures.fail

theorem operand_ensures : Ensures (operand code pc) fun _ ↦ pc + 2 ≤ code.length :=
  need_ensures.bind fun _ hneed ↦ (Ensures.read (by omega)).mono fun _ _ ↦ hneed

theorem blockEnd_ensures (h : pc + 1 < code.length) :
    Ensures (blockEnd code pc) fun next ↦ pc < next ∧ next ≤ code.length := by
  refine (Ensures.read h).bind fun skip _ ↦ Ensures.ite (fun _ ↦ Ensures.fail) fun hle ↦ ?_
  unfold checkedSkipEnd at hle ⊢
  exact Ensures.pure ⟨by omega, by omega⟩

theorem parseSetItem_ensures (op : Word) (opcode : Opcode) :
    Ensures (parseSetItem code pc op opcode) (Advances code pc) := by
  cases opcode
  case literal | category =>
    exact need_ensures.bind fun _ hneed ↦ (Ensures.read (by omega)).bind fun _ _ ↦
      Ensures.pure ⟨by simp, hneed⟩
  case range | rangeUniIgnore =>
    exact need_ensures.bind fun _ hneed ↦ (Ensures.read (by omega)).bind fun _ _ ↦
      (Ensures.read (by omega)).bind fun _ _ ↦ Ensures.pure ⟨by simp, hneed⟩
  case charset =>
    exact need_ensures.bind fun _ hneed ↦ (Ensures.slice (by omega)).bind fun _ _ ↦
      Ensures.pure ⟨by simp, hneed⟩
  case bigCharset =>
    exact need_ensures.bind fun _ _ ↦ (Ensures.read (by omega)).bind fun blocks _ ↦
      need_ensures.bind fun _ hneed ↦ (Ensures.slice (by omega)).bind fun _ _ ↦
        Ensures.pure ⟨by simp only; omega, hneed⟩
  all_goals exact Ensures.fail

theorem parseCharset_ensures {stop : ℕ} (hstop : stop ≤ code.length) (hpc : pc ≤ code.length)
    (hfuel : code.length < pc + fuel) (set : Charset) :
    Ensures (parseCharset code fuel pc stop set) fun _ ↦ True := by
  induction fuel generalizing pc set with
  | zero => omega
  | succ fuel ih =>
    refine Ensures.ite (fun hlt ↦ (Ensures.read (by omega)).bind fun op _ ↦ ?_)
      fun _ ↦ Ensures.pure trivial
    split
    · exact Ensures.pure trivial
    · exact ih (by omega) (by omega) _
    · exact (parseSetItem_ensures op _).bind fun ⟨item, next⟩ ⟨hafter, hwithin⟩ ↦
        ih hwithin (by simp only at hafter; omega) _
    · exact Ensures.fail

theorem parseIn_ensures (hfuel : code.length ≤ pc + fuel) (case : CaseMode) :
    Ensures (parseIn code fuel pc case) (Advances code pc) :=
  need_ensures.bind fun _ hneed ↦ (blockEnd_ensures (by omega)).bind fun _ hnext ↦
    (parseCharset_ensures hnext.2 hneed (by omega) _).bind fun _ _ ↦ Ensures.pure hnext

section

variable (hsequence : Answers code pc sequence)
include hsequence

theorem parseAssert_ensures (positive : Bool) :
    Ensures (parseAssert code sequence pc positive) (Advances code pc) :=
  need_ensures.bind fun _ hneed ↦ (blockEnd_ensures (by omega)).bind fun _ hnext ↦
    (hsequence _ _ (by omega) hneed (by omega)).bind fun _ _ ↦
      (Ensures.read (by omega)).bind fun _ _ ↦ Ensures.pure hnext

theorem parseAtomic_ensures :
    Ensures (parseAtomic code sequence pc) (Advances code pc) :=
  need_ensures.bind fun _ hneed ↦ (blockEnd_ensures (by omega)).bind fun _ hnext ↦
    (hsequence _ _ (by omega) hneed (by omega)).bind fun _ _ ↦ Ensures.pure hnext

theorem parseRepeatOne_ensures (kind : RepeatKind) :
    Ensures (parseRepeatOne code sequence pc kind) (Advances code pc) :=
  need_ensures.bind fun _ hneed ↦ (blockEnd_ensures (by omega)).bind fun _ hnext ↦
    (hsequence _ _ (by omega) hneed (by omega)).bind fun _ _ ↦
      (Ensures.read (by omega)).bind fun _ _ ↦ (Ensures.read (by omega)).bind fun _ _ ↦
        Ensures.pure hnext

end

theorem untilKind_ensures {until_ : ℕ} (h : until_ < code.length) :
    Ensures (untilKind code until_) fun _ ↦ True := by
  refine (Ensures.read h).bind fun op _ ↦ ?_
  split
  · exact Ensures.pure trivial
  · exact Ensures.pure trivial
  · exact Ensures.fail

theorem successKind_ensures {next : ℕ} (h : next < code.length) :
    Ensures (successKind code next) fun _ ↦ True :=
  (Ensures.read h).bind fun _ _ ↦ Ensures.ite (fun _ ↦ Ensures.pure trivial) fun _ ↦ Ensures.fail

theorem parseRepeat_ensures (hsequence : Answers code pc sequence) {kindAt : ℕ → Parse RepeatKind}
    (hkind : ∀ until_ < code.length, Ensures (kindAt until_) fun _ ↦ True) :
    Ensures (parseRepeat code sequence pc kindAt) (Advances code pc) := by
  refine need_ensures.bind fun _ hneed ↦ (Ensures.read (by omega)).bind fun skip _ ↦
    Ensures.ite (fun _ ↦ Ensures.fail) fun hlt ↦ ?_
  unfold checkedSkipEnd at hlt ⊢
  exact (hkind _ (by omega)).bind fun _ _ ↦
    (hsequence _ _ (by omega) hneed (by omega)).bind fun _ _ ↦
      (Ensures.read (by omega)).bind fun _ _ ↦ (Ensures.read (by omega)).bind fun _ _ ↦
        Ensures.pure ⟨by simp only; omega, by simp only; omega⟩

theorem jumpBefore_ensures {position : ℕ} (h : position ≤ code.length) :
    Ensures (jumpBefore code position) fun jumps ↦
      jumps = true → 2 ≤ position ∧ code[position - 2]? = some Opcode.jump.word := by
  refine Ensures.ite (fun hle ↦ (Ensures.read (by omega)).bind fun op hop ↦ Ensures.pure ?_)
    fun _ ↦ Ensures.pure nofun
  intro hjump
  rw [hop, eq_of_beq hjump]
  exact ⟨hle, rfl⟩

section

variable (hsequence : Answers code pc sequence)
include hsequence

theorem parseBranch_ensures {cursor : ℕ} (hpc : pc < cursor)
    (hcursor : cursor ≤ code.length) (hfuel : code.length < cursor + fuel) :
    Ensures (parseBranch code sequence fuel cursor) (Advances code pc) := by
  induction fuel generalizing cursor with
  | zero => omega
  | succ fuel ih =>
    refine need_ensures.bind fun _ hneed ↦ (Ensures.read (by omega)).bind fun skip _ ↦
      Ensures.ite (fun _ ↦ Ensures.pure ⟨by simp only; omega, by simp only; omega⟩) fun _ ↦
        Ensures.ite (fun _ ↦ Ensures.fail) fun hnext ↦ ?_
    rw [not_or] at hnext
    refine (jumpBefore_ensures (by omega)).bind fun jumps _ ↦
      (hsequence _ _ (by omega) (by omega) ?_).bind fun _ _ ↦
        (ih (by omega) (by omega) (by omega)).bind fun _ hlast ↦ Ensures.pure hlast
    split <;> omega

/-- A conditional ends after its opcode even when the word that is taken for a jump stands before
it: then the opcode itself is taken for the operand. -/
theorem parseGroupRefExists_ensures (hop : code[pc]? = some Opcode.groupRefExists.word) :
    Ensures (parseGroupRefExists code sequence pc) (Advances code pc) := by
  refine need_ensures.bind fun _ hneed ↦ (Ensures.read (by omega)).bind fun group hgroup ↦
    (Ensures.read (by omega)).bind fun (skip : ℕ) hskip ↦ Ensures.ite (fun _ ↦ Ensures.fail) fun hstart ↦
      (jumpBefore_ensures (by omega)).bind fun jumps hjumps ↦ ?_
  refine Ensures.ite (fun hjump ↦ ?_) fun _ ↦
    (hsequence _ _ (by omega) hneed (by omega)).bind fun _ _ ↦
      Ensures.pure ⟨by simp only; omega, by simp only; omega⟩
  obtain ⟨htwo, hword⟩ := hjumps hjump
  refine (Ensures.read (by omega)).bind fun (jumpArg : ℕ) hjumpArg ↦
    Ensures.ite (fun _ ↦ Ensures.fail) fun hend ↦ ?_
  have hafter : pc < pc + 2 + skip - 1 - 1 + jumpArg := by
    rcases (by omega : skip = 0 ∨ skip = 1 ∨ skip = 2 ∨ 3 ≤ skip) with rfl | rfl | rfl | hskip'
    · have hat : code[pc]? = some jumpArg := hjumpArg
      rw [hop] at hat
      have harg : 12 = jumpArg := Option.some.inj hat
      omega
    · have hat : code[pc]? = some Opcode.jump.word := hword
      rw [hop] at hat
      exact absurd (Opcode.word_injective (Option.some.inj hat)) nofun
    · have hat : code[pc + 2]? = some jumpArg := hjumpArg
      rw [hskip] at hat
      have harg : 2 = jumpArg := Option.some.inj hat
      omega
    · omega
  exact (hsequence _ _ (by omega) (by omega) (by omega)).bind fun _ _ ↦
    (hsequence _ _ (by omega) hneed (by omega)).bind fun _ _ ↦
      Ensures.pure ⟨hafter, by simp only; omega⟩

theorem parseNode_ensures {opcode : Opcode}
    (hop : code[pc]? = some opcode.word) (hfuel : code.length ≤ pc + fuel) :
    Ensures (parseNode code sequence fuel pc opcode) (Advances code pc) := by
  have hpc : pc < code.length := (List.getElem?_eq_some_iff.mp hop).1
  have hoperand : ∀ f : Word → Node,
      Ensures (operand code pc >>= fun word ↦ (pure (f word, pc + 2) : Parse (Node × ℕ)))
        (Advances code pc) := fun f ↦
    operand_ensures.bind fun _ hwithin ↦ Ensures.pure ⟨by simp, hwithin⟩
  cases opcode
  case any | anyAll => exact Ensures.pure ⟨by simp, hpc⟩
  case literal | literalIgnore | literalLocIgnore | literalUniIgnore | notLiteral | notLiteralIgnore
    | notLiteralLocIgnore | notLiteralUniIgnore | at_ | category | mark | groupRef | groupRefIgnore
    | groupRefLocIgnore | groupRefUniIgnore => exact hoperand _
  case in_ | inIgnore | inLocIgnore | inUniIgnore => exact parseIn_ensures hfuel _
  case assert | assertNot => exact parseAssert_ensures hsequence _
  case branch =>
    exact (parseBranch_ensures hsequence (by omega) (by omega) (by omega)).bind
      fun _ hnext ↦ Ensures.pure hnext
  case repeatOne | minRepeatOne | possessiveRepeatOne => exact parseRepeatOne_ensures hsequence _
  case repeat_ => exact parseRepeat_ensures hsequence fun _ ↦ untilKind_ensures
  case possessiveRepeat => exact parseRepeat_ensures hsequence fun _ ↦ successKind_ensures
  case atomicGroup => exact parseAtomic_ensures hsequence
  case groupRefExists => exact parseGroupRefExists_ensures hsequence hop
  all_goals exact Ensures.fail

end

theorem parseSequence_ensures {stop : ℕ} (hpc : pc ≤ code.length) (hstop : stop ≤ code.length)
    (hfuel : code.length < pc + fuel) :
    Ensures (parseSequence code fuel pc stop) fun _ ↦ True := by
  induction fuel generalizing pc stop with
  | zero => omega
  | succ fuel ih =>
    refine Ensures.ite (fun hlt ↦ (Ensures.read (by omega)).bind fun op hop ↦ ?_)
      fun _ ↦ Ensures.pure trivial
    split
    · exact Ensures.fail
    · next opcode hopcode =>
      rw [Opcode.ofWord_eq_some.mp hopcode] at hop
      have hanswers : Answers code pc (parseSequence code fuel) :=
        fun start stop hafter hstart hwithin ↦ ih hstart hwithin (by omega)
      exact Ensures.ite (fun _ ↦ Ensures.pure trivial) fun _ ↦
        (parseNode_ensures hanswers hop (by omega)).bind fun _ ⟨hafter, hwithin⟩ ↦
          (ih hwithin hstop (by omega)).bind fun _ _ ↦ Ensures.pure trivial

theorem programStart_ensures (h : code ≠ []) :
    Ensures (programStart code) fun start ↦ start ≤ code.length := by
  have hpos : 0 < code.length := List.length_pos_iff.mpr h
  refine (Ensures.read hpos).bind fun op _ ↦ Ensures.ite (fun _ ↦ ?_) fun _ ↦ Ensures.pure (by omega)
  exact need_ensures.bind fun _ hneed ↦ (Ensures.read (by omega)).bind fun _ _ ↦
    Ensures.ite (fun _ ↦ Ensures.fail) fun hle ↦ Ensures.pure (by omega)

/-- The decoder ends with a tree or with one of its errors. -/
theorem parse_answers (code : List Word) :
    (∃ nodes, parse code = .ok nodes) ∨ ∃ error, parse code = .error (.error error) := by
  have hensures : Ensures (parse code) fun _ ↦ True := by
    refine Ensures.ite (fun _ ↦ Ensures.fail) fun hne ↦ ?_
    rw [List.isEmpty_iff] at hne
    exact (programStart_ensures hne).bind fun _ hstart ↦
      (parseSequence_ensures hstart (Nat.le_refl _) (by omega)).bind fun _ _ ↦ Ensures.pure trivial
  exact hensures.outcome.imp_left fun ⟨nodes, hnodes, _⟩ ↦ ⟨nodes, hnodes⟩

end Pon.Sre
