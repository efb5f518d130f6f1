import Pon.Sre.Totality
import Pon.Sre.Words

/-!
# Decoding what the compiler emits

The decoder returns the tree exactly when the tree is `readable`. A sequence is read up to a bound
that is its end, or two words before its end where the decoder misreads a jump, or the end of the
program; `SequenceReads` covers the three.
-/

namespace Pon.Sre

open Decoding

variable {layout : Layout}

/-! ## Misread jumps -/

/-- The word that `jumpOperand` looks at, by its position. -/
theorem jumpOperand_eq (front : List Word) (op operand : Word) :
    jumpOperand (front ++ [op, operand]) = if op = Opcode.jump.word then some operand else none := by
  simp [jumpOperand]

theorem jumpOperand_concat {front : List Word} {last jump : Word}
    (h : jumpOperand (front ++ [last]) = some jump) : jump = last := by
  unfold jumpOperand at h
  rw [List.reverse_append] at h
  split at h
  · next heq =>
    rw [List.reverse_singleton, List.singleton_append, List.cons.injEq] at heq
    split at h
    · exact (Option.some.inj h).symm.trans heq.1.symm
    · exact absurd h nofun
  · exact absurd h nofun

/-- Every node starts before `stop`, where the first one starts at `pc`. -/
def Starts (layout : Layout) (stop : ℕ) : ℕ → List Node → Prop
  | _, [] => True
  | pc, node :: nodes => pc < stop ∧ Starts layout stop (pc + (encodeNode layout node).length) nodes

variable {nodes : List Node} {node : Node}

theorem starts_of_le {stop pc : ℕ} (h : pc + (encode layout nodes).length ≤ stop) :
    Starts layout stop pc nodes := by
  induction nodes generalizing pc with
  | nil => trivial
  | cons node nodes ih =>
    have hpos := encodeNode_length_pos layout node
    rw [encode_cons, List.length_append] at h
    exact ⟨by omega, ih (by omega)⟩

theorem starts_concat {stop pc : ℕ} :
    Starts layout stop pc (nodes ++ [node]) ↔
      Starts layout stop pc nodes ∧ pc + (encode layout nodes).length < stop := by
  induction nodes generalizing pc with
  | nil => simp [Starts]
  | cons first nodes ih =>
    simp only [List.cons_append, Starts, ih, encode_cons, List.length_append, and_assoc, Nat.add_assoc]

variable {group : ℕ}

/-- A conditional whose last words are misread ends in a node of three words or more, or in a single
word after an operand, or it is empty. -/
theorem misread_cases {yes : List Node} {jump : ℕ}
    (h : jumpOperand (group :: ((encode layout yes).length + 2) :: encode layout yes) = some jump) :
    yes = [] ∧ jump = 2 ∨
      (∃ front all, yes = front ++ [.any all] ∧ 2 ≤ jump) ∨
        ∃ front last, yes = front ++ [last] ∧ 3 ≤ (encodeNode layout last).length := by
  rcases List.eq_nil_or_concat yes with rfl | ⟨front, last, rfl⟩
  · refine .inl ⟨rfl, ?_⟩
    have hwords := jumpOperand_eq [] group 2
    simp only [List.nil_append] at hwords
    simp only [encode_nil, List.length_nil] at h
    rw [hwords] at h
    split at h
    · exact (Option.some.inj h).symm
    · exact absurd h nofun
  · rw [List.concat_eq_append] at h ⊢
    refine .inr ?_
    cases hoperands : operands layout last with
    | nil =>
      obtain ⟨all, rfl⟩ := operands_eq_nil layout hoperands
      refine .inl ⟨front, all, rfl, ?_⟩
      rw [encode_concat, encodeNode, hoperands, ← List.cons_append, ← List.cons_append] at h
      rw [jumpOperand_concat h]
      cases all <;> simp [nodeCode, Opcode.word]
    | cons operand rest =>
      refine .inr ⟨front, last, rfl, ?_⟩
      cases rest with
      | cons _ _ => simp [encodeNode, hoperands]
      | nil =>
        have hwords : group :: ((encode layout (front ++ [last])).length + 2) ::
            encode layout (front ++ [last]) =
            (group :: ((encode layout (front ++ [last])).length + 2) :: encode layout front) ++
              [(nodeCode layout last).word, operand] := by
          rw [encode_concat]
          simp [encodeNode, hoperands]
        rw [hwords, jumpOperand_eq, if_neg (nodeCode_ne_jump layout last)] at h
        exact absurd h nofun

theorem endsWithAny_concat (front : List Node) (last : Node) :
    endsWithAny (front ++ [last]) = true ↔ ∃ all, last = .any all := by
  unfold endsWithAny
  simp only [List.getLast?_append, List.getLast?_singleton, Option.some_or]
  cases last <;> simp

/-- Two words before the end of a misread conditional all its nodes have started, unless the last one
is a single word. -/
theorem starts_misread {pc : ℕ} {yes : List Node} {jump : Word}
    (h : jumpOperand (group :: ((encode layout yes).length + 2) :: encode layout yes) = some jump) :
    Starts layout (pc + 1 + (encode layout yes).length) (pc + 3) yes ↔ endsWithAny yes = false := by
  rcases misread_cases h with ⟨rfl, _⟩ | ⟨front, all, rfl, _⟩ | ⟨front, last, rfl, hlong⟩
  · simp [Starts, endsWithAny]
  · have hany := (endsWithAny_concat front (.any all)).mpr ⟨all, rfl⟩
    rw [hany, starts_concat, encode_concat]
    simp [encodeNode, operands]
    omega
  · have hnot : endsWithAny (front ++ [last]) = false := by
      rw [Bool.eq_false_iff, ne_eq, endsWithAny_concat]
      rintro ⟨all, rfl⟩
      simp [encodeNode, operands] at hlong
    rw [hnot, starts_concat, encode_concat, List.length_append]
    simp only [iff_true]
    exact ⟨starts_of_le (by omega), by omega⟩

/-- A conditional that ends in a single word is misread with a skip past its end. -/
theorem endsWithAny_eq_false {yes : List Node} {jump : ℕ}
    (h : jumpOperand (group :: ((encode layout yes).length + 2) :: encode layout yes) = some jump)
    (hle : jump ≤ 1) : endsWithAny yes = false := by
  rcases misread_cases h with ⟨rfl, _⟩ | ⟨front, all, rfl, hjump⟩ | ⟨front, last, rfl, hlong⟩
  · rfl
  · omega
  · rw [Bool.eq_false_iff, ne_eq, endsWithAny_concat]
    rintro ⟨all, rfl⟩
    simp [encodeNode, operands] at hlong

/-! ## Specifications

What the decoder does with the words of a node, a sequence and the alternatives of a branch. -/

/-- Where the decoder continues after a node that it has read. -/
def nodeEnd (layout : Layout) (pc : ℕ) (node : Node) : ℕ :=
  match misreadJump layout node with
  | none => pc + (encodeNode layout node).length
  | some jump => pc + (encodeNode layout node).length - 1 + jump

/-- The bound of a sequence that ends at `position`. -/
def Bounds (code : List Word) (stop position : ℕ) (after : List Word) : Prop :=
  stop ≤ position ∨ after = [Opcode.success.word] ∧ stop = code.length

def NodeReads (layout : Layout) (node : Node) : Prop :=
  ∀ {code after : List Word} {fuel pc next : ℕ}, code.length ≤ pc + fuel →
    At code pc (encodeNode layout node ++ after) →
      (parseNode code (parseSequence code fuel) fuel pc (nodeCode layout node) = .ok (node, next) ↔
        nodeReadable layout after node = true ∧ next = nodeEnd layout pc node)

structure SequenceReads (layout : Layout) (nodes : List Node) : Prop where
  complete : ∀ {code after : List Word} {fuel pc stop : ℕ}, code.length < pc + fuel →
    At code pc (encode layout nodes ++ after) →
      Bounds code stop (pc + (encode layout nodes).length) after → Starts layout stop pc nodes →
        readable layout after nodes = true → ∃ last, parseSequence code fuel pc stop = .ok (nodes, last)
  sound : ∀ {code after : List Word} {fuel pc stop last : ℕ} {result : List Node},
    code.length < pc + fuel → At code pc (encode layout nodes ++ after) →
      Bounds code stop (pc + (encode layout nodes).length) after →
        parseSequence code fuel pc stop = .ok (result, last) → nodes <+: result →
          result = nodes ∧ Starts layout stop pc nodes ∧ readable layout after nodes = true

def BranchesRead (layout : Layout) (branches : List (List Node)) : Prop :=
  ∀ {code after : List Word} {fuel fuel' cursor next : ℕ}, code.length < cursor + fuel' →
    code.length ≤ cursor + fuel →
      At code cursor (encodeBranches layout branches ++ Opcode.failure.word :: after) →
        (parseBranch code (parseSequence code fuel) fuel' cursor = .ok (branches, next) ↔
          branchesReadable layout (Opcode.failure.word :: after) branches = true ∧
            next = cursor + (encodeBranches layout branches).length + 1)

/-! ## Sequences -/

section Sequences

variable {code after : List Word} {fuel pc stop : ℕ}

variable {node : Node} {nodes : List Node}

/-- One turn of the loop, at a node. -/
theorem parseSequence_node (hlt : pc < stop) (hat : At code pc (encodeNode layout node ++ after)) :
    parseSequence code (fuel + 1) pc stop = (do
      let (first, next) ← parseNode code (parseSequence code fuel) fuel pc (nodeCode layout node)
      let (nodes, last) ← parseSequence code fuel next stop
      pure (first :: nodes, last)) := by
  rw [parseSequence, if_pos hlt, At.readHead hat, pure_bind_eq, Opcode.ofWord_word]
  simp only [nodeCode_stops]
  rfl

/-- Nothing is read at the bound or at a word that ends a sequence. -/
theorem parseSequence_nil (hfuel : 0 < fuel)
    (h : stop ≤ pc ∨ pc ≤ code.length ∧ startsWithStop (code.drop pc) = true) :
    parseSequence code fuel pc stop = .ok ([], pc) := by
  obtain _ | fuel := fuel
  · omega
  · unfold parseSequence
    by_cases hlt : pc < stop
    · obtain ⟨hwithin, hstops⟩ := h.resolve_left (by omega)
      rw [if_pos hlt]
      cases hdrop : code.drop pc with
      | nil => rw [hdrop] at hstops; exact absurd hstops nofun
      | cons op words =>
        rw [hdrop] at hstops
        rw [At.readHead ⟨hwithin, hdrop⟩, pure_bind_eq]
        simp only [startsWithStop, Option.any_eq_true] at hstops
        obtain ⟨opcode, hopcode, hstop⟩ := hstops
        rw [hopcode]
        simp only [hstop]
        rfl
    · rw [if_neg hlt]
      rfl

/-- Only there nothing is read. -/
theorem startsWithStop_of_nil {last : ℕ} (h : parseSequence code fuel pc stop = .ok ([], last)) :
    stop ≤ pc ∨ startsWithStop (code.drop pc) = true := by
  obtain _ | fuel := fuel
  · cases h
  · rw [parseSequence] at h
    by_cases hlt : pc < stop
    · refine .inr ?_
      rw [if_pos hlt, bind_eq_ok] at h
      obtain ⟨op, hop, h⟩ := h
      unfold Decoding.read at hop
      split at hop
      · next word hword =>
        cases hop
        obtain ⟨hpc, rfl⟩ := List.getElem?_eq_some_iff.mp hword
        rw [List.drop_eq_getElem_cons hpc]
        split at h
        · exact absurd h fail_ne_ok
        · next opcode hopcode =>
          simp only [startsWithStop, hopcode, Option.any_some]
          split at h
          · assumption
          · obtain ⟨first, -, h⟩ := bind_eq_ok.mp h
            obtain ⟨rest, -, h⟩ := bind_eq_ok.mp h
            exact absurd (congrArg (List.length ∘ Prod.fst) (Except.ok.inj h)) (by simp)
      · cases hop
    · exact .inl (by omega)

/-! The decoder after a misread conditional. -/

theorem misread_last {jump : Word} (h : misreadJump layout node = some jump) :
    ∃ front, encodeNode layout node = front ++ [jump] := by
  cases node with
  | groupRefExists group yes no =>
    simp only [misreadJump] at h
    split at h
    · next hno =>
      have hwords : encodeNode layout (.groupRefExists group yes no) = Opcode.groupRefExists.word ::
          group :: ((encode layout yes).length + 2) :: encode layout yes := by
        simp only [encodeNode, operands, if_pos hno, nodeCode]
      obtain hnil | ⟨front, last, hconcat⟩ := List.eq_nil_or_concat
        (group :: ((encode layout yes).length + 2) :: encode layout yes)
      · cases hnil
      · rw [List.concat_eq_append] at hconcat
        rw [hwords, hconcat]
        rw [hconcat] at h
        exact ⟨Opcode.groupRefExists.word :: front, by rw [jumpOperand_concat h]; rfl⟩
    · cases h
  | _ => cases h

theorem readable_misread {words : List Word} {jump : ℕ}
    (hjump : misreadJump layout node = some jump) (h : nodeReadable layout words node = true) :
    jump ≤ 1 ∨ startsWithStop words = true ∧ jump ≤ words.length + 1 := by
  cases node with
  | groupRefExists group yes no =>
    have hno : no.isEmpty = true := by
      by_contra hno
      simp only [misreadJump, hno] at hjump
      exact absurd hjump nofun
    simp only [nodeReadable, if_pos hno, hjump, Option.all_some, jumpReadable, Bool.and_eq_true,
      Bool.or_eq_true, decide_eq_true_eq] at h
    exact h.2.imp_right fun ⟨⟨_, hstop⟩, hle⟩ ↦ ⟨hstop, hle⟩
  | _ => exact absurd hjump nofun

/-- Unless the skip is one, the decoder stops after a misread conditional that it has read. -/
theorem parseSequence_misread {jump : ℕ} (hfuel : 0 < fuel)
    (hjump : misreadJump layout node = some jump) (hne : jump ≠ 1)
    (hat : At code pc (encodeNode layout node ++ (encode layout nodes ++ after)))
    (hbounds : Bounds code stop
      (pc + ((encodeNode layout node).length + (encode layout nodes).length)) after)
    (hread : nodeReadable layout (encode layout nodes ++ after) node = true) :
    (jump = 0 ∨ nodes = []) ∧
      parseSequence code fuel (nodeEnd layout pc node) stop = .ok ([], nodeEnd layout pc node) := by
  have hend : nodeEnd layout pc node = pc + (encodeNode layout node).length - 1 + jump := by
    simp only [nodeEnd, hjump]
  obtain rfl | hlt : jump = 0 ∨ 2 ≤ jump := by omega
  · refine ⟨.inl rfl, parseSequence_nil hfuel (.inr ?_)⟩
    obtain ⟨front, hwords⟩ := misread_last hjump
    rw [hwords, List.append_assoc] at hat
    have hlast := hat.append
    rw [hend, hwords, List.length_append]
    have hposition : pc + (front.length + [0].length) - 1 + 0 = pc + front.length := by simp
    rw [hposition]
    exact ⟨hlast.within, by rw [hlast.drop]; rfl⟩
  · obtain ⟨hstop, hle⟩ := (readable_misread hjump hread).resolve_left (by omega)
    obtain rfl := startsWithStop_encode layout hstop
    refine ⟨.inr rfl, parseSequence_nil hfuel (.inl ?_)⟩
    have hpos := encodeNode_length_pos layout node
    have hlength := hat.length
    simp only [encode_nil, List.nil_append, List.length_append, List.length_nil] at hle hlength hbounds
    rw [hend]
    obtain hbound | ⟨rfl, hbound⟩ := hbounds
    · omega
    · simp only [List.length_singleton] at hle hlength
      omega

theorem nodeEnd_eq (h : misreadJump layout node = none ∨ misreadJump layout node = some 1) :
    nodeEnd layout pc node = pc + (encodeNode layout node).length := by
  have hpos := encodeNode_length_pos layout node
  rcases h with h | h <;> simp only [nodeEnd, h]
  omega

theorem parseSequence_end (hfuel : code.length < pc + fuel) (hat : At code pc after)
    (hbounds : Bounds code stop pc after) : parseSequence code fuel pc stop = .ok ([], pc) := by
  have hwithin := hat.within
  refine parseSequence_nil (by omega) (hbounds.imp id fun ⟨hafter, _⟩ ↦ ⟨hwithin, ?_⟩)
  rw [hat.drop, hafter]
  rfl

theorem reads_nil : SequenceReads layout [] where
  complete hfuel hat hbounds _ _ := ⟨_, parseSequence_end hfuel hat hbounds⟩
  sound hfuel hat hbounds hparse _ := by
    have hnil := parseSequence_end hfuel hat hbounds
    rw [hparse] at hnil
    exact ⟨congrArg Prod.fst (Except.ok.inj hnil), trivial, rfl⟩

theorem reads_cons (hnode : NodeReads layout node) (hnodes : SequenceReads layout nodes) :
    SequenceReads layout (node :: nodes) where
  complete := by
    intro code after fuel pc stop hfuel hat hbounds hstarts hread
    obtain _ | fuel := fuel
    · exact absurd hat.within (by omega)
    rw [encode_cons, List.append_assoc] at hat
    rw [encode_cons, List.length_append] at hbounds
    simp only [readable, Bool.and_eq_true, Bool.or_eq_true, List.isEmpty_iff, bne_iff_ne] at hread
    obtain ⟨⟨hfirst, hlast⟩, hrest⟩ := hread
    have hpos := encodeNode_length_pos layout node
    have hlength := hat.length
    rw [List.length_append] at hlength
    have hfuel' : code.length < pc + (encodeNode layout node).length + fuel := by omega
    have hpositive : 0 < fuel := by omega
    have hinner : code.length ≤ pc + fuel := by omega
    have hparse := (hnode hinner hat).mpr ⟨hfirst, rfl⟩
    suffices h : ∃ last, parseSequence code fuel (nodeEnd layout pc node) stop = .ok (nodes, last) by
      obtain ⟨last, h⟩ := h
      refine ⟨last, ?_⟩
      rw [parseSequence_node hstarts.1 hat, hparse, pure_bind_eq]
      simp only [h, pure_bind_eq]
      rfl
    by_cases hjump : misreadJump layout node = none ∨ misreadJump layout node = some 1
    · rw [nodeEnd_eq hjump]
      exact hnodes.complete hfuel' hat.append (by rwa [Nat.add_assoc]) hstarts.2 hrest
    · rw [not_or] at hjump
      obtain ⟨jump, hmisread⟩ := Option.ne_none_iff_exists'.mp hjump.1
      obtain ⟨hnil, hstop⟩ := parseSequence_misread hpositive
        hmisread (fun h ↦ hjump.2 (h ▸ hmisread)) hat hbounds hfirst
      have hempty : nodes = [] := hnil.elim (fun h ↦ hlast.resolve_left (not_not.mpr (h ▸ hmisread))) id
      exact ⟨_, hempty ▸ hstop⟩
  sound := by
    intro code after fuel pc stop last result hfuel hat hbounds hparse hprefix
    obtain _ | fuel := fuel
    · exact absurd hat.within (by omega)
    rw [encode_cons, List.append_assoc] at hat
    rw [encode_cons, List.length_append] at hbounds
    have hpos := encodeNode_length_pos layout node
    have hlength := hat.length
    rw [List.length_append] at hlength
    have hfuel' : code.length < pc + (encodeNode layout node).length + fuel := by omega
    have hpositive : 0 < fuel := by omega
    have hinner : code.length ≤ pc + fuel := by omega
    by_cases hlt : pc < stop
    · rw [parseSequence_node hlt hat] at hparse
      obtain ⟨⟨first, next⟩, hfirst, hparse⟩ := bind_eq_ok.mp hparse
      obtain ⟨⟨rest, last'⟩, hrest, hparse⟩ := bind_eq_ok.mp hparse
      obtain ⟨rfl, -⟩ := Prod.mk.inj (Except.ok.inj hparse)
      obtain ⟨rfl, htail⟩ := List.cons_prefix_cons.mp hprefix
      obtain ⟨hread, rfl⟩ := (hnode hinner hat).mp hfirst
      simp only [readable, Starts, hread, hlt, Bool.true_and, true_and, List.cons.injEq]
      by_cases hjump : misreadJump layout node = none ∨ misreadJump layout node = some 1
      · rw [nodeEnd_eq hjump] at hrest
        obtain ⟨hresult, hstarts, hreadable⟩ :=
          hnodes.sound hfuel' hat.append (by rwa [Nat.add_assoc]) hrest htail
        refine ⟨hresult, hstarts, ?_⟩
        rcases hjump with h | h <;> simp [h, hreadable]
      · rw [not_or] at hjump
        obtain ⟨jump, hmisread⟩ := Option.ne_none_iff_exists'.mp hjump.1
        obtain ⟨-, hstop⟩ := parseSequence_misread hpositive
          hmisread (fun h ↦ hjump.2 (h ▸ hmisread)) hat hbounds hread
        rw [hrest] at hstop
        have hnil : rest = [] := congrArg Prod.fst (Except.ok.inj hstop)
        rw [hnil, List.prefix_nil] at htail
        subst htail
        exact ⟨hnil, trivial, by simp [readable]⟩
    · rw [parseSequence, if_neg hlt] at hparse
      have hnil : [] = result := congrArg Prod.fst (Except.ok.inj hparse)
      exact absurd (hnil ▸ hprefix) (by simp)

theorem SequenceReads.parse_iff (h : SequenceReads layout nodes) (hfuel : code.length < pc + fuel)
    (hat : At code pc (encode layout nodes ++ after)) :
    (∃ last, parseSequence code fuel pc (pc + (encode layout nodes).length) = .ok (nodes, last)) ↔
      readable layout after nodes = true := by
  constructor
  · rintro ⟨last, hparse⟩
    exact (h.sound hfuel hat (.inl (Nat.le_refl _)) hparse (List.prefix_refl _)).2.2
  · exact h.complete hfuel hat (.inl (Nat.le_refl _)) (starts_of_le (Nat.le_refl _))

end Sequences

/-! ## Nodes -/

theorem nodeEnd_of_none {pc : ℕ} (h : misreadJump layout node = none) :
    nodeEnd layout pc node = pc + (encodeNode layout node).length :=
  nodeEnd_eq (.inl h)

/-- A node that is always read, with nothing nested in it. -/
theorem reads_leaf (hread : ∀ after, nodeReadable layout after node = true)
    (hjump : misreadJump layout node = none)
    (h : ∀ {code after : List Word} {fuel pc : ℕ}, code.length ≤ pc + fuel →
      At code pc (encodeNode layout node ++ after) →
        parseNode code (parseSequence code fuel) fuel pc (nodeCode layout node) =
          .ok (node, pc + (encodeNode layout node).length)) : NodeReads layout node := by
  intro code after fuel pc next hfuel hat
  rw [h hfuel hat, nodeEnd_of_none hjump, Except.ok.injEq, Prod.mk.injEq]
  simp only [hread, true_and]
  exact eq_comm

/-- A node that is made of one operand. -/
theorem parse_operand {code after : List Word} {pc : ℕ} {op word : Word}
    (hat : At code pc (op :: word :: after)) (node : Word → Node) :
    (operand code pc >>= fun word ↦ pure (node word, pc + 2) : Parse (Node × ℕ)) =
      .ok (node word, pc + 2) := by
  rw [At.operand hat]
  rfl

theorem reads_literal (value : Word) (case : CaseMode) : NodeReads layout (.literal value case) := by
  refine reads_leaf (fun _ ↦ rfl) rfl fun {code after fuel pc} _ hat ↦ ?_
  cases case <;> exact parse_operand hat fun value ↦ .literal value _

theorem reads_notLiteral (value : Word) (case : CaseMode) :
    NodeReads layout (.notLiteral value case) := by
  refine reads_leaf (fun _ ↦ rfl) rfl fun {code after fuel pc} _ hat ↦ ?_
  cases case <;> exact parse_operand hat fun value ↦ .notLiteral value _

theorem reads_any (all : Bool) : NodeReads layout (.any all) := by
  refine reads_leaf (fun _ ↦ rfl) rfl fun {code after fuel pc} _ _ ↦ ?_
  cases all <;> rfl

theorem reads_at (position : Word) : NodeReads layout (.at_ position) := by
  refine reads_leaf (fun _ ↦ rfl) rfl fun {code after fuel pc} _ hat ↦ ?_
  exact parse_operand hat .at_

theorem reads_mark (index : ℕ) : NodeReads layout (.mark index) := by
  refine reads_leaf (fun _ ↦ rfl) rfl fun {code after fuel pc} _ hat ↦ ?_
  exact parse_operand hat .mark

theorem reads_groupRef (group : ℕ) (case : CaseMode) : NodeReads layout (.groupRef group case) := by
  refine reads_leaf (fun _ ↦ rfl) rfl fun {code after fuel pc} _ hat ↦ ?_
  cases case <;> exact parse_operand hat fun group ↦ .groupRef group _

/-- A category that the layout writes without its set. -/
theorem bare_eq_some {set : Charset} {case : CaseMode} {category : Word}
    (h : layout.bare set case = some category) :
    set = { items := [.category category], negated := false } ∧ case = .exact := by
  unfold Layout.bare at h
  split at h
  · cases h
    exact ⟨rfl, rfl⟩
  · exact absurd h nofun

theorem reads_in (set : Charset) (case : CaseMode) : NodeReads layout (.in_ set case) := by
  refine reads_leaf (fun _ ↦ rfl) rfl fun {code after fuel pc} hfuel hat ↦ ?_
  cases hbare : layout.bare set case with
  | some category =>
    obtain ⟨rfl, rfl⟩ := bare_eq_some hbare
    have hcode : nodeCode layout (.in_ { items := [.category category], negated := false } .exact) =
        .category := by
      simp only [nodeCode, hbare, Option.isSome_some, if_true]
    have hwords : encodeNode layout (.in_ { items := [.category category], negated := false } .exact) =
        [Opcode.category.word, category] := by
      simp only [encodeNode, operands, hbare, hcode]
    rw [hwords] at hat ⊢
    rw [hcode]
    exact parse_operand hat fun category ↦ .in_ { items := [.category category], negated := false } .exact
  | none =>
    have hwords : encodeNode layout (.in_ set case) =
        (inCode case).word :: block (encodeCharset set) := by
      simp only [encodeNode, operands, nodeCode, hbare, Option.isSome_none]
      rfl
    rw [hwords] at hat ⊢
    have hparse : parseNode code (parseSequence code fuel) fuel pc (nodeCode layout (.in_ set case)) =
        parseIn code fuel pc case := by
      simp only [nodeCode, hbare, Option.isSome_none]
      cases case <;> rfl
    have hlength := hat.length
    simp only [block, List.length_append, List.length_cons] at hlength
    have hset := parseCharset_encode set hat.tail.tail rfl (by omega : code.length < pc + 1 + 1 + fuel)
    rw [hparse]
    unfold parseIn
    rw [hat.need (by simp [block]), pure_bind_eq, hat.blockEnd, pure_bind_eq, hset, pure_bind_eq]
    simp only [block, List.length_cons]
    exact congrArg (fun next ↦ Except.ok (Node.in_ set case, next)) (by omega)

/-! ## Blocks -/

section Blocks

variable {code after : List Word} {fuel pc : ℕ} {body : List Node}

/-- A node made from a body that the decoder reads first. -/
theorem block_iff {make : List Node → Node} (hmake : Function.Injective make) {start stop finish : ℕ}
    {next : ℕ} {rest : List Node × ℕ → Parse (Node × ℕ)} {P : Prop}
    (hrest : ∀ nodes last, rest (nodes, last) = .ok (make nodes, finish))
    (hbody : (∃ last, parseSequence code fuel start stop = .ok (body, last)) ↔ P) :
    parseSequence code fuel start stop >>= rest = .ok (make body, next) ↔ P ∧ next = finish := by
  rw [← hbody]
  constructor
  · intro h
    obtain ⟨⟨nodes, last⟩, hnodes, h⟩ := bind_eq_ok.mp h
    rw [hrest] at h
    obtain ⟨hnode, rfl⟩ := Prod.mk.inj (Except.ok.inj h)
    exact ⟨⟨last, hmake hnode ▸ hnodes⟩, rfl⟩
  · rintro ⟨⟨last, hnodes⟩, rfl⟩
    rw [hnodes, pure_bind_eq]
    exact hrest body last

/-- The places of a block that ends with SUCCESS: its body, its end, and the bound of the body. -/
theorem block_positions (front : List Word) {words : List Word} {op : Word}
    (hwords : words = op :: block (front ++ encode layout body ++ [Opcode.success.word]))
    (hat : At code pc (words ++ after)) :
    At code (pc + (front.length + 2)) (encode layout body ++ Opcode.success.word :: after) ∧
      blockEnd code pc = .ok (pc + words.length) ∧
        pc + words.length - 1 = pc + (front.length + 2) + (encode layout body).length := by
  have hlength : words.length = front.length + (encode layout body).length + 3 := by
    simp only [hwords, block, List.length_cons, List.length_append, List.length_nil]
  refine ⟨?_, ?_, by omega⟩
  · rw [hwords] at hat
    simp only [block, List.cons_append, List.append_assoc] at hat
    have hbody := hat.tail.tail.append
    rwa [show pc + 1 + 1 + front.length = pc + (front.length + 2) by omega] at hbody
  · rw [hwords] at hat
    rw [hat.blockEnd, hwords]
    simp only [block, List.length_cons]
    exact congrArg Except.ok (by omega)

theorem reads_assert (hbody : SequenceReads layout body) (positive : Bool) (width : ℕ) :
    NodeReads layout (.assert positive width body) := by
  intro code after fuel pc next hfuel hat
  have hparse : parseNode code (parseSequence code fuel) fuel pc
      (nodeCode layout (.assert positive width body)) =
        parseAssert code (parseSequence code fuel) pc positive := by
    cases positive <;> rfl
  obtain ⟨hinner, hend, hstop⟩ := block_positions [width] rfl hat
  rw [hparse, nodeEnd_of_none rfl]
  unfold parseAssert
  rw [hat.need (by simp [encodeNode, operands, block]), pure_bind_eq, hend, pure_bind_eq, hstop]
  refine block_iff (fun _ _ h ↦ (Node.assert.inj h).2.2) (fun nodes last ↦ ?_)
    (hbody.parse_iff (by omega) hinner)
  rw [hat.read 2 rfl]
  rfl

theorem reads_atomic (hbody : SequenceReads layout body) : NodeReads layout (.atomic body) := by
  intro code after fuel pc next hfuel hat
  obtain ⟨hinner, hend, hstop⟩ := block_positions [] rfl hat
  change parseAtomic code (parseSequence code fuel) pc = _ ↔ _
  rw [nodeEnd_of_none rfl]
  unfold parseAtomic
  rw [hat.need (by simp [encodeNode, operands, block]), pure_bind_eq, hend, pure_bind_eq, hstop]
  exact block_iff (fun _ _ ↦ Node.atomic.inj) (fun nodes last ↦ rfl) (hbody.parse_iff (by omega) hinner)

theorem maxOf_maxWord (max : Option Bound) : maxOf (maxWord max) = max := by
  unfold maxOf
  cases max with
  | none => rw [dif_pos (by rfl)]
  | some bound => rw [dif_neg (by exact bound.property)]; rfl

theorem reads_repeatOne (hbody : SequenceReads layout body) (min : ℕ) (max : Option Bound)
    (kind : RepeatKind) (hsimple : layout.simple body = true) :
    NodeReads layout (.repeat_ body min max kind) := by
  intro code after fuel pc next hfuel hat
  have hwords : encodeNode layout (.repeat_ body min max kind) =
      (repeatCode true kind).word ::
        block ([min, maxWord max] ++ encode layout body ++ [Opcode.success.word]) := by
    simp only [encodeNode, operands, nodeCode, hsimple, if_true]
    rfl
  have hparse : parseNode code (parseSequence code fuel) fuel pc
      (nodeCode layout (.repeat_ body min max kind)) =
        parseRepeatOne code (parseSequence code fuel) pc kind := by
    simp only [nodeCode, hsimple]
    cases kind <;> rfl
  obtain ⟨hinner, hend, hstop⟩ := block_positions [min, maxWord max] hwords hat
  rw [hparse, nodeEnd_of_none rfl]
  rw [hwords] at hat
  unfold parseRepeatOne
  rw [hat.need (by simp [block]), pure_bind_eq, hend, pure_bind_eq, hstop]
  simp only [nodeReadable, hsimple, if_true]
  refine block_iff (fun _ _ h ↦ (Node.repeat_.inj h).1) (fun nodes last ↦ ?_)
    (hbody.parse_iff (by omega) hinner)
  simp only [hat.read 2 rfl, hat.read 3 rfl, pure_bind_eq, maxOf_maxWord]
  rfl

/-- How the decoder finds the kind of a repeat whose last word follows the block. -/
def kindAt (code : List Word) : RepeatKind → ℕ → Parse RepeatKind
  | .possessive => successKind code
  | _ => untilKind code

theorem kindAt_eq {kind : RepeatKind} (hat : At code pc ((untilCode kind).word :: after)) :
    kindAt code kind pc = .ok kind := by
  cases kind <;> simp only [kindAt, successKind, untilKind] <;>
    rw [At.readHead hat, pure_bind_eq] <;> rfl

theorem reads_repeat (hbody : SequenceReads layout body) (min : ℕ) (max : Option Bound)
    (kind : RepeatKind) (hsimple : layout.simple body = false) :
    NodeReads layout (.repeat_ body min max kind) := by
  intro code after fuel pc next hfuel hat
  have hwords : encodeNode layout (.repeat_ body min max kind) =
      (repeatCode false kind).word :: ((encode layout body).length + 3) :: min :: maxWord max ::
        (encode layout body ++ [(untilCode kind).word]) := by
    simp only [encodeNode, operands, nodeCode, hsimple]
    rfl
  have hlength := hat.length
  rw [hwords] at hat hlength
  rw [nodeEnd_of_none rfl, hwords]
  simp only [List.cons_append, List.append_assoc, List.length_cons, List.length_append,
    List.length_nil] at hat hlength ⊢
  have hinner := hat.tail.tail.tail.tail
  have huntil := hinner.append
  have hkind : kindAt code kind (pc + 4 + (encode layout body).length) = .ok kind := kindAt_eq huntil
  have hparse : parseNode code (parseSequence code fuel) fuel pc
      (nodeCode layout (.repeat_ body min max kind)) =
        parseRepeat code (parseSequence code fuel) pc (kindAt code kind) := by
    simp only [nodeCode, hsimple]
    cases kind <;> rfl
  have hskip : checkedSkipEnd pc ((encode layout body).length + 3) =
      pc + 4 + (encode layout body).length := by
    unfold checkedSkipEnd
    omega
  rw [hparse]
  unfold parseRepeat
  rw [hat.need (by simp), pure_bind_eq, hat.read 1 rfl, pure_bind_eq]
  simp only [hskip]
  rw [if_neg (by omega), hkind, pure_bind_eq]
  simp only [nodeReadable, hsimple]
  rw [show pc + ((encode layout body).length + (0 + 1) + 1 + 1 + 1 + 1) =
    pc + 4 + (encode layout body).length + 1 by omega]
  refine block_iff (fun _ _ h ↦ (Node.repeat_.inj h).1) (fun nodes last ↦ ?_)
    (hbody.parse_iff (by omega) hinner)
  simp only [hat.read 2 rfl, hat.read 3 rfl, pure_bind_eq, maxOf_maxWord]
  rfl

end Blocks

/-! ## Branches -/

section Branches

variable {code after : List Word} {fuel fuel' cursor next : ℕ}

theorem reads_branches_nil : BranchesRead layout [] := by
  intro code after fuel fuel' cursor next hfuel _ hat
  obtain _ | fuel' := fuel'
  · exact absurd hat.within (by omega)
  · simp only [encodeBranches, List.nil_append] at hat
    rw [parseBranch, hat.need (by simp), pure_bind_eq, At.readHead hat, pure_bind_eq, if_pos rfl]
    simp [encodeBranches, branchesReadable, pure, Except.pure, eq_comm]

variable {branches : List (List Node)}

theorem reads_branches_cons {branch : List Node} (hbranch : SequenceReads layout branch)
    (hbranches : BranchesRead layout branches) :
    BranchesRead layout (branch :: branches) := by
  intro code after fuel fuel' cursor next hfuel' hfuel hat
  obtain _ | fuel' := fuel'
  · exact absurd hat.within (by omega)
  simp only [encodeBranches, List.cons_append, List.append_assoc] at hat
  have hlength := hat.length
  simp only [List.length_cons, List.length_append] at hlength
  have hjump := hat.tail.append
  have hread := hbranch.parse_iff (by omega : code.length < cursor + 1 + fuel) hat.tail
  have hnext : cursor + ((encode layout branch).length + 3) =
      cursor + 1 + (encode layout branch).length + 2 := by omega
  have htail (last : ℕ) := @hbranches code after fuel fuel' (cursor + 1 + (encode layout branch).length + 2)
    last (by omega) (by omega) hjump.tail.tail
  rw [parseBranch, hat.need (by simp), pure_bind_eq, At.readHead hat, pure_bind_eq,
    if_neg (by simp [Opcode.word])]
  simp only [hnext]
  rw [if_neg (by omega), hjump.jumpBefore, pure_bind_eq]
  simp only [BEq.rfl, if_true, Nat.add_sub_cancel, branchesReadable, Bool.and_eq_true, encodeBranches,
    List.cons_append, List.length_cons, List.length_append]
  rw [← hread]
  constructor
  · intro h
    obtain ⟨⟨nodes, last⟩, hnodes, h⟩ := bind_eq_ok.mp h
    obtain ⟨⟨rest, last'⟩, hrest, h⟩ := bind_eq_ok.mp h
    obtain ⟨hcons, rfl⟩ := Prod.mk.inj (Except.ok.inj h)
    obtain ⟨rfl, rfl⟩ : nodes = branch ∧ rest = branches := List.cons.inj hcons
    obtain ⟨hreadable, hlast⟩ := (htail last').mp hrest
    exact ⟨⟨⟨last, hnodes⟩, hreadable⟩, by simp only; omega⟩
  · rintro ⟨⟨⟨last, hnodes⟩, hreadable⟩, rfl⟩
    rw [hnodes, pure_bind_eq, (htail _).mpr ⟨hreadable, rfl⟩, pure_bind_eq]
    exact congrArg (fun last ↦ Except.ok (branch :: branches, last)) (by omega)

theorem reads_branch (h : BranchesRead layout branches) : NodeReads layout (.branch branches) := by
  intro code after fuel pc next hfuel hat
  simp only [encodeNode, operands, List.cons_append, List.append_assoc] at hat
  have hwithin := hat.tail.within
  have hbranches (last : ℕ) := @h code after fuel fuel (pc + 1) last (by omega) (by omega) hat.tail
  have hend : pc + (encodeNode layout (.branch branches)).length =
      pc + 1 + (encodeBranches layout branches).length + 1 := by
    simp only [encodeNode, operands, List.length_cons, List.length_append, List.length_nil]
    omega
  rw [nodeEnd_of_none rfl, hend]
  have hparse : parseNode code (parseSequence code fuel) fuel pc (nodeCode layout (.branch branches)) = (do
      let parsed ← parseBranch code (parseSequence code fuel) fuel (pc + 1)
      pure (.branch parsed.1, parsed.2)) := rfl
  simp only [nodeReadable]
  rw [hparse, ← hbranches]
  constructor
  · intro h
    obtain ⟨⟨branches', last⟩, hbranch, h⟩ := bind_eq_ok.mp h
    obtain ⟨hnode, rfl⟩ := Prod.mk.inj (Except.ok.inj h)
    cases hnode
    exact hbranch
  · intro hparse
    rw [hparse]
    rfl

end Branches

/-! ## Conditionals -/

section Conditionals

variable {code after : List Word} {fuel pc : ℕ} {yes no : List Node}

/-- The decoder's answer to whether an else part ends before `noStart`, by the last words of a
conditional that has none. -/
theorem jumpBefore_conditional {op group : Word}
    (hat : At code pc (op :: group :: ((encode layout yes).length + 2) :: encode layout yes ++ after)) :
    (jumpOperand (group :: ((encode layout yes).length + 2) :: encode layout yes) = none ∧
        jumpBefore code (pc + 3 + (encode layout yes).length) = .ok false) ∨
      ∃ jump,
        jumpOperand (group :: ((encode layout yes).length + 2) :: encode layout yes) = some jump ∧
          jumpBefore code (pc + 3 + (encode layout yes).length) = .ok true ∧
            (read code (pc + 2 + (encode layout yes).length) : Parse Word) = .ok jump := by
  obtain ⟨front, last, operand, hwords⟩ : ∃ front last operand,
      group :: ((encode layout yes).length + 2) :: encode layout yes = front ++ [last, operand] := by
    rcases List.eq_nil_or_concat (encode layout yes) with hnil | ⟨words, operand, hconcat⟩
    · exact ⟨[], group, (encode layout yes).length + 2, by rw [hnil]; rfl⟩
    · rcases List.eq_nil_or_concat words with rfl | ⟨words', last, rfl⟩
      · exact ⟨[group], (encode layout yes).length + 2, operand, by rw [hconcat]; rfl⟩
      · exact ⟨group :: ((encode layout yes).length + 2) :: words', last, operand, by
          rw [hconcat]; simp⟩
  have hcount := congrArg List.length hwords
  simp only [List.length_cons, List.length_append, List.length_nil] at hcount
  have hlast : At code (pc + 1 + front.length) (last :: operand :: after) := by
    have htail : At code (pc + 1)
        ((group :: ((encode layout yes).length + 2) :: encode layout yes) ++ after) := hat.tail
    rw [hwords, List.append_assoc] at htail
    exact htail.append
  have hjump := hlast.jumpBefore
  rw [show pc + 1 + front.length + 2 = pc + 3 + (encode layout yes).length by omega] at hjump
  have hoperand := At.readHead hlast.tail
  rw [show pc + 1 + front.length + 1 = pc + 2 + (encode layout yes).length by omega] at hoperand
  rw [hwords, jumpOperand_eq, hjump]
  by_cases h : last = Opcode.jump.word
  · exact .inr ⟨operand, if_pos h, by rw [h]; rfl, hoperand⟩
  · exact .inl ⟨if_neg h, congrArg Except.ok (beq_false_of_ne h)⟩

theorem reads_conditional (hyes : SequenceReads layout yes) (group : ℕ) :
    NodeReads layout (.groupRefExists group yes []) := by
  intro code after fuel pc next hfuel hat
  have hwords : encodeNode layout (.groupRefExists group yes []) =
      Opcode.groupRefExists.word :: group :: ((encode layout yes).length + 2) :: encode layout yes :=
    rfl
  rw [hwords] at hat
  have hlength := hat.length
  simp only [List.cons_append, List.length_cons, List.length_append] at hlength
  have hinner : At code (pc + 3) (encode layout yes ++ after) := hat.tail.tail.tail
  have hafter := hinner.append
  have hstart : pc + 2 + ((encode layout yes).length + 2) - 1 = pc + 3 + (encode layout yes).length := by
    omega
  change parseGroupRefExists code (parseSequence code fuel) pc = _ ↔ _
  unfold parseGroupRefExists
  rw [hat.need (by simp), pure_bind_eq, hat.read 1 rfl, pure_bind_eq]
  simp only [hat.read 2 rfl, pure_bind_eq, hstart]
  rw [if_neg (by omega)]
  rcases jumpBefore_conditional hat with ⟨hnone, hjumps⟩ | ⟨(jump : ℕ), hsome, hjumps, hoperand⟩
  · have hmisread : misreadJump layout (.groupRefExists group yes []) = none := hnone
    rw [hjumps, pure_bind_eq, nodeEnd_of_none hmisread, hwords]
    simp only [nodeReadable, List.isEmpty_nil, if_true, hmisread, Option.all_none, Bool.and_true,
      List.length_cons]
    rw [show pc + ((encode layout yes).length + 1 + 1 + 1) = pc + 3 + (encode layout yes).length by
      omega]
    exact block_iff (fun _ _ h ↦ (Node.groupRefExists.inj h).2.1) (fun _ _ ↦ rfl)
      (hyes.parse_iff (by omega) hinner)
  · have hmisread : misreadJump layout (.groupRefExists group yes []) = some jump := hsome
    have hstarts := @starts_misread layout group pc yes jump hsome
    have hback : pc + 3 + (encode layout yes).length - 1 = pc + 2 + (encode layout yes).length := by
      omega
    have hbound : pc + 3 + (encode layout yes).length - 2 = pc + 1 + (encode layout yes).length := by
      omega
    rw [hjumps, pure_bind_eq]
    simp only [if_true, hback, hoperand, pure_bind_eq, hbound]
    by_cases hwithin : code.length < pc + 2 + (encode layout yes).length + jump
    · rw [if_pos hwithin]
      refine iff_of_false fail_ne_ok fun ⟨hread, _⟩ ↦ ?_
      have hle := readable_misread hmisread hread
      omega
    · rw [if_neg hwithin]
      have hend : nodeEnd layout pc (.groupRefExists group yes []) =
          pc + 2 + (encode layout yes).length + jump := by
        simp only [nodeEnd, hmisread, hwords, List.length_cons]
        omega
      have hbounds : Bounds code (pc + 1 + (encode layout yes).length)
          (pc + 3 + (encode layout yes).length) after := .inl (by omega)
      have hafterLength := hafter.length
      simp only [nodeReadable, List.isEmpty_nil, if_true, hmisread, Option.all_some, Bool.and_eq_true,
        jumpReadable, Bool.or_eq_true, decide_eq_true_eq, Bool.not_eq_true', hend]
      constructor
      · intro h
        obtain ⟨⟨no, last⟩, hno, h⟩ := bind_eq_ok.mp h
        obtain ⟨⟨yes', last'⟩, hyes', h⟩ := bind_eq_ok.mp h
        obtain ⟨hnode, rfl⟩ := Prod.mk.inj (Except.ok.inj h)
        obtain ⟨-, rfl, rfl⟩ : group = group ∧ yes' = yes ∧ no = [] := Node.groupRefExists.inj hnode
        obtain ⟨-, hstarted, hread⟩ := hyes.sound (by omega) hinner hbounds hyes' (List.prefix_refl _)
        refine ⟨⟨hread, ?_⟩, rfl⟩
        rcases startsWithStop_of_nil hno with hle | hstop
        · exact .inl (show jump ≤ 1 by omega)
        · rw [hafter.drop] at hstop
          exact .inr ⟨⟨hstarts.mp hstarted, hstop⟩, show jump ≤ after.length + 1 by omega⟩
      · rintro ⟨⟨hread, hcase⟩, rfl⟩
        have hany : endsWithAny yes = false := hcase.elim (endsWithAny_eq_false hsome) fun h ↦ h.1.1
        obtain ⟨last, hlast⟩ :=
          hyes.complete (by omega : code.length < pc + 3 + fuel) hinner hbounds (hstarts.mpr hany) hread
        have hno : parseSequence code fuel (pc + 3 + (encode layout yes).length)
            (pc + 2 + (encode layout yes).length + jump) =
              .ok ([], pc + 3 + (encode layout yes).length) := by
          refine parseSequence_nil (by omega) (hcase.imp (fun (h : jump ≤ 1) ↦ by omega) fun h ↦ ⟨by omega, ?_⟩)
          rw [hafter.drop]
          exact h.1.2
        simp only [hno, hlast, pure_bind_eq]
        rfl

theorem reads_conditional_else (hyes : SequenceReads layout yes) (hno : SequenceReads layout no)
    (hne : no ≠ []) (group : ℕ) : NodeReads layout (.groupRefExists group yes no) := by
  intro code after fuel pc next hfuel hat
  have hempty : no.isEmpty = false := List.isEmpty_eq_false_iff.mpr hne
  have hmisread : misreadJump layout (.groupRefExists group yes no) = none := by
    simp only [misreadJump, hempty]
    rfl
  have hwords : encodeNode layout (.groupRefExists group yes no) =
      Opcode.groupRefExists.word :: group :: ((encode layout yes).length + 4) ::
        (encode layout yes ++ Opcode.jump.word :: block (encode layout no)) := by
    simp only [encodeNode, operands, hempty]
    rfl
  rw [nodeEnd_of_none hmisread, hwords]
  rw [hwords] at hat
  simp only [block, List.cons_append, List.append_assoc] at hat
  have hlength := hat.length
  simp only [List.length_cons, List.length_append] at hlength
  have hinner := hat.tail.tail.tail
  have hjump := hinner.append
  have helse := hjump.tail.tail
  have hstart : pc + 2 + ((encode layout yes).length + 4) - 1 =
      pc + 1 + 1 + 1 + (encode layout yes).length + 2 := by omega
  have hend : pc + 1 + 1 + 1 + (encode layout yes).length + 2 - 1 + ((encode layout no).length + 1) =
      pc + 1 + 1 + 1 + (encode layout yes).length + 1 + 1 + (encode layout no).length := by omega
  have hoperand : (read code (pc + 1 + 1 + 1 + (encode layout yes).length + 2 - 1) : Parse Word) =
      .ok ((encode layout no).length + 1) := At.readHead hjump.tail
  have hyesRead := hyes.parse_iff (by omega : code.length < pc + 3 + fuel) hinner
  have hnoRead := hno.parse_iff
    (by omega : code.length < pc + 1 + 1 + 1 + (encode layout yes).length + 1 + 1 + fuel) helse
  change parseGroupRefExists code (parseSequence code fuel) pc = _ ↔ _
  unfold parseGroupRefExists
  rw [hat.need (by simp), pure_bind_eq, hat.read 1 rfl, pure_bind_eq]
  simp only [hat.read 2 rfl, pure_bind_eq, hstart]
  rw [if_neg (by omega), hjump.jumpBefore, pure_bind_eq]
  simp only [BEq.rfl, if_true, hoperand, pure_bind_eq, hend, Nat.add_sub_cancel]
  rw [if_neg (by omega)]
  simp only [nodeReadable, hempty, block, List.cons_append]
  rw [if_neg Bool.false_ne_true, Bool.and_eq_true, ← hyesRead, ← hnoRead]
  constructor
  · intro h
    obtain ⟨⟨no', last⟩, hno', h⟩ := bind_eq_ok.mp h
    obtain ⟨⟨yes', last'⟩, hyes', h⟩ := bind_eq_ok.mp h
    obtain ⟨hnode, rfl⟩ := Prod.mk.inj (Except.ok.inj h)
    obtain ⟨-, rfl, rfl⟩ : group = group ∧ yes' = yes ∧ no' = no := Node.groupRefExists.inj hnode
    refine ⟨⟨⟨last', hyes'⟩, ⟨last, hno'⟩⟩, ?_⟩
    simp only [List.length_cons, List.length_append]
    omega
  · rintro ⟨⟨⟨last', hyes'⟩, ⟨last, hno'⟩⟩, rfl⟩
    simp only [hyes', hno', pure_bind_eq, List.length_cons, List.length_append]
    exact congrArg (fun last ↦ Except.ok (Node.groupRefExists group yes no, last)) (by omega)

end Conditionals

/-! ## Every tree -/

mutual

theorem node_reads : ∀ node, NodeReads layout node
  | .literal value case => reads_literal value case
  | .notLiteral value case => reads_notLiteral value case
  | .any all => reads_any all
  | .at_ position => reads_at position
  | .in_ set case => reads_in set case
  | .mark index => reads_mark index
  | .groupRef group case => reads_groupRef group case
  | .groupRefExists group yes [] => reads_conditional (sequence_reads yes) group
  | .groupRefExists group yes (node :: no) =>
    reads_conditional_else (sequence_reads yes) (reads_cons (node_reads node) (sequence_reads no))
      (List.cons_ne_nil _ _) group
  | .branch branches => reads_branch (branches_read branches)
  | .repeat_ body min max kind =>
    match h : layout.simple body with
    | true => reads_repeatOne (sequence_reads body) min max kind h
    | false => reads_repeat (sequence_reads body) min max kind h
  | .assert positive width body => reads_assert (sequence_reads body) positive width
  | .atomic body => reads_atomic (sequence_reads body)

theorem sequence_reads : ∀ nodes, SequenceReads layout nodes
  | [] => reads_nil
  | node :: nodes => reads_cons (node_reads node) (sequence_reads nodes)

theorem branches_read : ∀ branches, BranchesRead layout branches
  | [] => reads_branches_nil
  | branch :: branches => reads_branches_cons (sequence_reads branch) (branches_read branches)

end

/-! ## Programs -/

theorem programStart_none (nodes : List Node) :
    programStart (encodeProgram layout none nodes) = .ok 0 := by
  have hhead : ∃ word words, encodeProgram layout none nodes = word :: words ∧
      word ≠ Opcode.info.word := by
    cases nodes with
    | nil => exact ⟨_, [], rfl, by decide⟩
    | cons node nodes =>
      exact ⟨_, _, rfl, fun h ↦ (nodeCode_starts layout node).2 (Opcode.word_injective h)⟩
  obtain ⟨word, words, hwords, hne⟩ := hhead
  rw [hwords, programStart, At.readHead ⟨Nat.zero_le _, rfl⟩, pure_bind_eq, if_neg hne]
  rfl

theorem programStart_some (info : List Word) (nodes : List Node) :
    programStart (encodeProgram layout (some info) nodes) = .ok (info.length + 2) := by
  have hwords : encodeProgram layout (some info) nodes = Opcode.info.word :: (info.length + 1) ::
      (info ++ (encode layout nodes ++ [Opcode.success.word])) := by
    simp [encodeProgram, block]
  have hat : At (encodeProgram layout (some info) nodes) 0 (Opcode.info.word :: (info.length + 1) ::
      (info ++ (encode layout nodes ++ [Opcode.success.word]))) := ⟨Nat.zero_le _, hwords⟩
  have hlength := hat.length
  simp only [List.length_cons, List.length_append] at hlength
  rw [programStart, At.readHead hat, pure_bind_eq, if_pos rfl, hat.need (by simp), pure_bind_eq,
    hat.read 1 rfl, pure_bind_eq, if_neg (by omega)]
  exact congrArg Except.ok (by omega)

/-- The nodes of a program stand where the decoder starts. -/
theorem encodeProgram_at (info : Option (List Word)) (nodes : List Node) :
    ∃ start, programStart (encodeProgram layout info nodes) = .ok start ∧
      At (encodeProgram layout info nodes) start (encode layout nodes ++ [Opcode.success.word]) := by
  cases info with
  | none => exact ⟨0, programStart_none nodes, Nat.zero_le _, rfl⟩
  | some info =>
    have hat : At (encodeProgram layout (some info) nodes) 0 ((Opcode.info.word :: block info) ++
        (encode layout nodes ++ [Opcode.success.word])) :=
      ⟨Nat.zero_le _, by simp only [encodeProgram, List.drop_zero, List.append_assoc]⟩
    refine ⟨info.length + 2, programStart_some info nodes, ?_⟩
    have hafter := hat.append
    rwa [show 0 + (Opcode.info.word :: block info).length = info.length + 2 by simp [block]] at hafter

/-- The decoder answers for every list of words, and it gives back the tree of an encoding exactly
when the tree is readable. -/
theorem parse_encodeProgram (layout : Layout) :
    (∀ code : List Word,
      (∃ nodes, parse code = .ok nodes) ∨ ∃ error, parse code = .error (.error error)) ∧
    ∀ (info : Option (List Word)) (nodes : List Node),
      parse (encodeProgram layout info nodes) = .ok nodes ↔
        readable layout [Opcode.success.word] nodes = true := by
  refine ⟨parse_answers, fun info nodes ↦ ?_⟩
  obtain ⟨start, hstart, hat⟩ := @encodeProgram_at layout info nodes
  have hlength := hat.length
  rw [List.length_append, List.length_singleton] at hlength
  have hnonempty : ¬(encodeProgram layout info nodes).isEmpty = true := by
    rw [List.isEmpty_iff_length_eq_zero]
    omega
  have hbounds : Bounds (encodeProgram layout info nodes) (encodeProgram layout info nodes).length
      (start + (encode layout nodes).length) [Opcode.success.word] := .inr ⟨rfl, rfl⟩
  have hstarts : Starts layout (encodeProgram layout info nodes).length start nodes :=
    starts_of_le (by omega)
  rw [parse, if_neg hnonempty, hstart, pure_bind_eq]
  constructor
  · intro h
    obtain ⟨⟨result, last⟩, hresult, h⟩ := bind_eq_ok.mp h
    obtain rfl : result = nodes := Except.ok.inj h
    exact ((sequence_reads result).sound (by omega) hat hbounds hresult (List.prefix_refl _)).2.2
  · intro h
    obtain ⟨last, hlast⟩ := (sequence_reads nodes).complete
      (by omega : (encodeProgram layout info nodes).length <
        start + ((encodeProgram layout info nodes).length + 1)) hat hbounds hstarts h
    rw [hlast, pure_bind_eq]
    rfl

/-- The tree of `(x)?(?(1)\x0f.)`: the last words of the conditional are the literal 15 and ANY. -/
def cutConditional : List Node :=
  [.repeat_ [.mark 0, .literal 120 .exact, .mark 1] 0 (some ⟨1, by decide⟩) .greedy,
    .groupRefExists 0 [.literal 15 .exact, .any false] []]

/-- The decoder takes the literal for a jump and drops the ANY after it. -/
theorem parse_cutConditional :
    parse (encodeProgram .stdlib (some [0, 0, 3]) cutConditional) ≠ .ok cutConditional := by
  have hparse : parse (encodeProgram .stdlib (some [0, 0, 3]) cutConditional) =
      .ok [.repeat_ [.mark 0, .literal 120 .exact, .mark 1] 0 (some ⟨1, by decide⟩) .greedy,
        .groupRefExists 0 [.literal 15 .exact] []] := rfl
  rw [hparse]
  simp [cutConditional]

end Pon.Sre
