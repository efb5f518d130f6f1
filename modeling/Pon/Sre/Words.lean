import Pon.Sre.Decode
import Pon.Sre.Encode

/-!
# Words at a position

What the decoder reads where the words of an encoding stand, and the sets, which it always reads
back.
-/

namespace Pon.Sre

open Decoding

/-- The words from `pc` on. -/
structure At (code : List Word) (pc : ℕ) (words : List Word) : Prop where
  within : pc ≤ code.length
  drop : code.drop pc = words

namespace At

variable {code words front back : List Word} {pc : ℕ} {word : Word}

theorem length (h : At code pc words) : code.length = pc + words.length := by
  have hdrop := congrArg List.length h.drop
  rw [List.length_drop] at hdrop
  have hwithin := h.within
  omega

theorem append (h : At code pc (front ++ back)) : At code (pc + front.length) back := by
  refine ⟨?_, ?_⟩
  · rw [h.length, List.length_append]
    omega
  · rw [← List.drop_drop, h.drop, List.drop_left]

theorem tail (h : At code pc (word :: words)) : At code (pc + 1) words :=
  @append code [word] words pc h

theorem get (h : At code pc words) (index : ℕ) : code[pc + index]? = words[index]? := by
  rw [← h.drop, List.getElem?_drop]

theorem head (h : At code pc (word :: words)) : code[pc]? = some word := h.get 0

theorem need (h : At code pc words) {needed : ℕ} (hle : needed ≤ words.length) :
    need code pc needed = .ok () := by
  unfold Sre.need
  rw [if_pos (by rw [h.length]; omega)]
  rfl

theorem read (h : At code pc words) (index : ℕ) (hword : words[index]? = some word) :
    (read code (pc + index) : Parse Word) = .ok word := read_eq_ok (by rw [h.get, hword])

theorem readHead (h : At code pc (word :: words)) : (Decoding.read code pc : Parse Word) = .ok word :=
  read_eq_ok h.head

theorem operand {op : Word} (h : At code pc (op :: word :: words)) :
    operand code pc = .ok word := by
  unfold Sre.operand
  rw [h.need (by simp), pure_bind_eq, h.read 1 rfl]

theorem blockEnd {op : Word} {inner after : List Word} (h : At code pc (op :: block inner ++ after)) :
    blockEnd code pc = .ok (pc + 2 + inner.length) := by
  have hlength := h.length
  unfold Sre.blockEnd
  rw [h.read 1 rfl, pure_bind_eq]
  have hend : checkedSkipEnd pc (inner.length + 1) = pc + 2 + inner.length := by
    unfold checkedSkipEnd
    omega
  simp only [block, List.cons_append, List.length_cons, List.length_append] at hlength
  rw [hend, if_neg (by omega)]
  rfl

theorem jumpBefore {position : ℕ} (hat : At code position (word :: words)) :
    jumpBefore code (position + 2) = .ok (word == Opcode.jump.word) := by
  unfold Sre.jumpBefore
  rw [if_pos (by omega), Nat.add_sub_cancel, hat.readHead]
  rfl

end At

section Sets

variable {code after : List Word} {fuel pc : ℕ}

theorem parseSetItem_encode (item : SetItem) (h : At code pc (encodeSetItem item ++ after)) :
    ∃ opcode : Opcode, code[pc]? = some opcode.word ∧ opcode ≠ .failure ∧ opcode ≠ .negate ∧
      parseSetItem code pc opcode.word opcode = .ok (item, pc + (encodeSetItem item).length) := by
  cases item with
  | literal value =>
    refine ⟨.literal, h.head, nofun, nofun, ?_⟩
    simp only [parseSetItem]
    rw [h.need (by simp [encodeSetItem]), pure_bind_eq, h.read 1 rfl]
    rfl
  | range start stop =>
    refine ⟨.range, h.head, nofun, nofun, ?_⟩
    simp only [parseSetItem]
    rw [h.need (by simp [encodeSetItem]), pure_bind_eq, h.read 1 rfl, pure_bind_eq, h.read 2 rfl]
    rfl
  | rangeUnicodeIgnore start stop =>
    refine ⟨.rangeUniIgnore, h.head, nofun, nofun, ?_⟩
    simp only [parseSetItem]
    rw [h.need (by simp [encodeSetItem]), pure_bind_eq, h.read 1 rfl, pure_bind_eq, h.read 2 rfl]
    rfl
  | bitmap words =>
    have hcount : words.val.length = 8 := words.property
    refine ⟨.charset, h.head, nofun, nofun, ?_⟩
    simp only [parseSetItem]
    rw [h.need (by simp [encodeSetItem, hcount]), pure_bind_eq,
      slice_eq_ok (by omega) h.tail.drop, pure_bind_eq]
    simp only [encodeSetItem, List.length_cons, hcount]
    rfl
  | bigCharset blocks words =>
    have hcount : words.val.length = 64 + blocks * 8 := words.property
    refine ⟨.bigCharset, h.head, nofun, nofun, ?_⟩
    simp only [parseSetItem]
    rw [h.need (by simp [encodeSetItem]), pure_bind_eq, h.read 1 rfl, pure_bind_eq,
      h.need (by simp [encodeSetItem, hcount]; omega), pure_bind_eq,
      slice_eq_ok (by omega) h.tail.tail.drop, pure_bind_eq]
    simp only [encodeSetItem, List.length_cons, hcount]
    exact congrArg (fun next ↦ Except.ok (SetItem.bigCharset blocks words, next)) (by omega)
  | category category =>
    refine ⟨.category, h.head, nofun, nofun, ?_⟩
    simp only [parseSetItem]
    rw [h.need (by simp [encodeSetItem]), pure_bind_eq, h.read 1 rfl]
    rfl

theorem encodeSetItem_length_pos (item : SetItem) : 0 < (encodeSetItem item).length := by
  cases item <;> simp [encodeSetItem]

theorem parseCharset_items {stop : ℕ} (items : List SetItem) (set : Charset)
    (h : At code pc (items.flatMap encodeSetItem ++ Opcode.failure.word :: after))
    (hstop : pc + (items.flatMap encodeSetItem).length < stop) (hfuel : code.length < pc + fuel) :
    parseCharset code fuel pc stop set = .ok { set with items := set.items ++ items } := by
  induction items generalizing fuel pc set with
  | nil =>
    obtain _ | fuel := fuel
    · exact absurd h.within (by omega)
    · simp only [parseCharset]
      rw [if_pos (by simpa using hstop), At.readHead h, pure_bind_eq, Opcode.ofWord_word]
      simp only [List.append_nil]
      rfl
  | cons item items ih =>
    obtain _ | fuel := fuel
    · exact absurd h.within (by omega)
    · rw [List.flatMap_cons, List.append_assoc] at h
      rw [List.flatMap_cons, List.length_append] at hstop
      have hpos := encodeSetItem_length_pos item
      obtain ⟨opcode, hop, hfailure, hnegate, hitem⟩ := parseSetItem_encode item h
      simp only [parseCharset]
      rw [if_pos (by omega), read_eq_ok hop, pure_bind_eq, Opcode.ofWord_word]
      have hfuel' : code.length < pc + (encodeSetItem item).length + fuel := by omega
      have hrest := ih { set with items := set.items ++ [item] } h.append (by omega) hfuel'
      simp only [List.append_assoc, List.singleton_append] at hrest
      split
      · next heq => exact absurd (Option.some.inj heq) hfailure
      · next heq => exact absurd (Option.some.inj heq) hnegate
      · next heq =>
        cases heq
        rw [hitem, pure_bind_eq]
        exact hrest
      · next heq => exact absurd heq nofun

theorem parseCharset_encode {stop : ℕ} (set : Charset) (h : At code pc (encodeCharset set ++ after))
    (hstop : stop = pc + (encodeCharset set).length) (hfuel : code.length < pc + fuel) :
    parseCharset code fuel pc stop { items := [], negated := false } = .ok set := by
  obtain ⟨items, negated⟩ := set
  cases negated with
  | false =>
    have hat : At code pc (items.flatMap encodeSetItem ++ Opcode.failure.word :: after) := by
      simpa [encodeCharset] using h
    rw [parseCharset_items items _ hat (by simp [hstop, encodeCharset]) hfuel]
    rfl
  | true =>
    have hat : At code pc
        (Opcode.negate.word :: (items.flatMap encodeSetItem ++ Opcode.failure.word :: after)) := by
      simpa [encodeCharset] using h
    obtain _ | fuel := fuel
    · exact absurd h.within (by omega)
    · simp only [parseCharset]
      rw [if_pos (by simp [hstop, encodeCharset]), hat.readHead, pure_bind_eq, Opcode.ofWord_word]
      simp only
      rw [parseCharset_items items _ hat.tail (by simp [hstop, encodeCharset]; omega) (by omega)]
      rfl

end Sets

section Words

variable (layout : Layout)

@[simp]
theorem encode_nil : encode layout [] = [] := rfl

variable (node : Node)

@[simp]
theorem encode_cons (nodes : List Node) :
    encode layout (node :: nodes) = encodeNode layout node ++ encode layout nodes := rfl

theorem encode_concat (nodes : List Node) (node : Node) :
    encode layout (nodes ++ [node]) = encode layout nodes ++ encodeNode layout node := by
  induction nodes with
  | nil => simp
  | cons first nodes ih => simp only [List.cons_append, encode_cons, ih, List.append_assoc]

/-- A node starts with an opcode that neither ends a sequence nor starts a program. -/
theorem nodeCode_starts :
    (nodeCode layout node).stops = false ∧ nodeCode layout node ≠ .info := by
  cases node with
  | literal value case => cases case <;> exact ⟨rfl, nofun⟩
  | notLiteral value case => cases case <;> exact ⟨rfl, nofun⟩
  | any all => cases all <;> exact ⟨rfl, nofun⟩
  | in_ set case =>
    simp only [nodeCode]
    split
    · exact ⟨rfl, nofun⟩
    · cases case <;> exact ⟨rfl, nofun⟩
  | groupRef group case => cases case <;> exact ⟨rfl, nofun⟩
  | repeat_ body min max kind =>
    simp only [nodeCode]
    cases layout.simple body <;> cases kind <;> exact ⟨rfl, nofun⟩
  | assert positive width body => cases positive <;> exact ⟨rfl, nofun⟩
  | _ => exact ⟨rfl, nofun⟩

theorem nodeCode_stops : (nodeCode layout node).stops = false :=
  (nodeCode_starts layout node).1

theorem nodeCode_ne_jump : (nodeCode layout node).word ≠ Opcode.jump.word := by
  intro h
  have hstops := nodeCode_stops layout node
  rw [Opcode.word_injective h] at hstops
  exact absurd hstops nofun

theorem operands_eq_nil {node : Node} (h : operands layout node = []) : ∃ all, node = .any all := by
  cases node with
  | any all => exact ⟨all, rfl⟩
  | in_ set case | groupRefExists group yes no =>
    simp only [operands] at h
    split at h <;> exact absurd h nofun
  | branch branches => exact absurd h (by simp [operands])
  | repeat_ body min max kind =>
    simp only [operands] at h
    split at h <;> exact absurd h (by simp [block])
  | _ => exact absurd h nofun

theorem encodeNode_length_pos : 0 < (encodeNode layout node).length := by
  simp [encodeNode]

theorem startsWithStop_encode {nodes : List Node} {after : List Word}
    (h : startsWithStop (encode layout nodes ++ after) = true) : nodes = [] := by
  cases nodes with
  | nil => rfl
  | cons node nodes =>
    simp only [encode_cons, encodeNode, List.cons_append, startsWithStop, Opcode.ofWord_word,
      Option.any_some, nodeCode_stops] at h
    exact absurd h nofun

end Words

end Pon.Sre
