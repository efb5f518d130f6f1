import Mathlib.Data.List.Basic

/-!
# Ordered alternatives

A backtracking search tries a list of alternatives in order. Two lists are the same for it if they are
the same up to the first alternative at which it stops. They agree if whatever is looked for, and every
alternative at which it stops is looked for, is found first at the same place; so an alternative that has
been tried before may be left out.
-/

namespace Pon.Alternatives

variable {α β : Type}

/-- A list up to the first element at which a search stops, this one included. -/
def upTo (stop : α → Bool) : List α → List α
  | [] => []
  | a :: l => if stop a then [a] else a :: upTo stop l

variable {stop : α → Bool} {l l' m m' : List α}

theorem upTo_of_any_eq_false (none : l.any stop = false) : upTo stop l = l := by
  induction l with
  | nil => rfl
  | cons a l ih =>
    obtain ⟨here, later⟩ := Bool.or_eq_false_iff.mp none
    rw [upTo, here, if_neg Bool.false_ne_true, ih later]

theorem upTo_append : upTo stop (l ++ m) = if l.any stop then upTo stop l else l ++ upTo stop m := by
  induction l with
  | nil => rfl
  | cons a l ih =>
    rw [List.cons_append, upTo, upTo, List.any_cons]
    cases stop a with
    | true => rfl
    | false =>
      rw [if_neg Bool.false_ne_true, if_neg Bool.false_ne_true, ih, Bool.false_or]
      split_ifs <;> rfl

theorem find?_upTo {wanted : α → Bool} (more : ∀ a, stop a → wanted a) :
    (upTo stop l).find? wanted = l.find? wanted := by
  induction l with
  | nil => rfl
  | cons a l ih =>
    rw [upTo]
    cases here : wanted a with
    | true => split_ifs <;> rw [List.find?_cons_of_pos here, List.find?_cons_of_pos here]
    | false =>
      have differs : ¬wanted a = true := Bool.eq_false_iff.mp here
      rw [if_neg fun stops ↦ differs (more a stops), List.find?_cons_of_neg differs,
        List.find?_cons_of_neg differs, ih]

@[simp]
theorem any_upTo : (upTo stop l).any stop = l.any stop := by
  rw [← List.isSome_find?, ← List.isSome_find?, find?_upTo fun _ ↦ id]

/-- A list that is short or stops early is looked at no further. -/
theorem length_upTo_le {count : ℕ} (h : l.length ≤ count ∨ (l.take count).any stop) :
    (upTo stop l).length ≤ count := by
  induction l generalizing count with
  | nil => exact Nat.zero_le _
  | cons a l ih =>
    cases count with
    | zero => exact h.elim (absurd · (Nat.not_succ_le_zero _)) nofun
    | succ count =>
      rw [upTo]
      split_ifs with here
      · exact Nat.succ_le_succ (Nat.zero_le _)
      · refine Nat.succ_le_succ (ih (h.imp Nat.le_of_succ_le_succ fun stops ↦ ?_))
        rw [List.take_succ_cons, List.any_cons, Bool.eq_false_iff.mpr here] at stops
        exact stops

/-- Behind what is looked at, a list may be cut. -/
theorem find?_take {count : ℕ} (enough : (upTo stop l).length ≤ count) :
    (l.take count).find? stop = l.find? stop := by
  induction l generalizing count with
  | nil => rw [List.take_nil]
  | cons a l ih =>
    rw [upTo] at enough
    cases count with
    | zero => split_ifs at enough <;> exact absurd enough (Nat.not_succ_le_zero _)
    | succ count =>
      rw [List.take_succ_cons]
      cases here : stop a with
      | true => rw [List.find?_cons_of_pos here, List.find?_cons_of_pos here]
      | false =>
        have differs : ¬stop a = true := Bool.eq_false_iff.mp here
        rw [if_neg differs] at enough
        rw [List.find?_cons_of_neg differs, List.find?_cons_of_neg differs,
          ih (Nat.le_of_succ_le_succ enough)]

/-- Two lists are the same for a search that stops. -/
def SameUpTo (stop : α → Bool) (l m : List α) : Prop :=
  upTo stop l = upTo stop m

namespace SameUpTo

section

variable (same : SameUpTo stop l m)
include same

theorem any_eq : l.any stop = m.any stop := by
  rw [← any_upTo, same, any_upTo]

/-- Where the search does not stop, the lists are equal. -/
theorem eq (none : l.any stop = false) : l = m := by
  rw [← upTo_of_any_eq_false none, same, upTo_of_any_eq_false (same.any_eq.symm.trans none)]

theorem append (later : l.any stop = false → SameUpTo stop l' m') :
    SameUpTo stop (l ++ l') (m ++ m') := by
  unfold SameUpTo
  rw [upTo_append, upTo_append, ← same.any_eq]
  cases any : l.any stop with
  | true => exact same
  | false => rw [same.eq any, later any]

end

/-- Behind a stop, alternatives may be left out. -/
theorem append_right (stops : l.any stop) : SameUpTo stop l (l ++ m) := by
  unfold SameUpTo
  rw [upTo_append, if_pos stops]

theorem take_flatMap {f : α → List β} {stop : β → Bool} {count : ℕ}
    (stops : (l.take count).any fun a ↦ (f a).any stop) :
    SameUpTo stop ((l.take count).flatMap f) (l.flatMap f) := by
  have whole : l.flatMap f = (l.take count).flatMap f ++ (l.drop count).flatMap f := by
    rw [← List.flatMap_append, List.take_append_drop]
  rw [whole]
  apply append_right
  rw [List.any_flatMap]
  exact stops

end SameUpTo

theorem SameUpTo.take_one (same : SameUpTo (fun _ ↦ true) l m) : l.take 1 = m.take 1 := by
  have first (l : List α) : upTo (fun _ ↦ true) l = l.take 1 := by cases l <;> rfl
  rw [← first, ← first]
  exact same

/-- Whatever is looked for is found first at the same place. -/
def Agree (stop : α → Bool) (l m : List α) : Prop :=
  ∀ wanted : α → Bool, (∀ a, stop a → wanted a) → l.find? wanted = m.find? wanted

/-- The lists agree for every search. -/
abbrev Alike (l m : List α) : Prop := Agree (fun _ ↦ false) l m

namespace Agree

theorem refl : Agree stop l l := fun _ _ ↦ rfl

theorem symm (agree : Agree stop l m) : Agree stop m l :=
  fun wanted more ↦ (agree wanted more).symm

theorem trans (agree : Agree stop l m) (agree' : Agree stop m l') : Agree stop l l' :=
  fun wanted more ↦ (agree wanted more).trans (agree' wanted more)

theorem mono {stop' : α → Bool} (agree : Agree stop l m) (more : ∀ a, stop a → stop' a) :
    Agree stop' l m :=
  fun wanted more' ↦ agree wanted fun a stops ↦ more' a (more a stops)

theorem of_alike (alike : Alike l m) : Agree stop l m :=
  alike.mono fun _ ↦ nofun

theorem find?_eq (agree : Agree stop l m) : l.find? stop = m.find? stop :=
  agree stop fun _ ↦ id

theorem head?_eq (agree : Agree stop l m) : l.head? = m.head? := by
  have first (l : List α) : l.find? (fun _ ↦ true) = l.head? := by cases l <;> rfl
  rw [← first, ← first]
  exact agree _ fun _ _ ↦ rfl

theorem eq_nil_iff (agree : Agree stop l m) : l = [] ↔ m = [] := by
  rw [← List.head?_eq_none_iff, agree.head?_eq, List.head?_eq_none_iff]

theorem mem_iff (alike : Alike l m) (a : α) : a ∈ l ↔ a ∈ m := by
  classical
  have found (l : List α) : a ∈ l ↔ (l.find? fun b ↦ decide (b = a)).isSome := by simp
  rw [found l, found m, alike _ fun _ ↦ nofun]

theorem append (agree : Agree stop l m) (later : l.any stop = false → Agree stop l' m') :
    Agree stop (l ++ l') (m ++ m') := by
  intro wanted more
  rw [List.find?_append, List.find?_append, ← agree wanted more]
  cases here : l.find? wanted with
  | some => rfl
  | none =>
    have unstopped : l.any stop = false := by
      rw [List.any_eq_false]
      exact fun a mem stops ↦ List.find?_eq_none.mp here a mem (more a stops)
    rw [later unstopped wanted more]

/-- Alternatives that have been tried before do not matter. -/
theorem absorb (tried : ∀ a ∈ l', a ∈ l) : Agree stop (l ++ l' ++ m) (l ++ m) := by
  intro wanted _
  rw [List.find?_append, List.find?_append, List.find?_append]
  cases here : l.find? wanted with
  | some => rfl
  | none =>
    have nothing : l'.find? wanted = none :=
      List.find?_eq_none.mpr fun a mem ↦ List.find?_eq_none.mp here a (tried a mem)
    rw [nothing]
    rfl

theorem map {f : α → β} {stop : β → Bool} (agree : Agree (fun a ↦ stop (f a)) l m) :
    Agree stop (l.map f) (m.map f) := by
  intro wanted more
  rw [List.find?_map, List.find?_map]
  exact congrArg (Option.map f) (agree (wanted ∘ f) fun a stops ↦ more (f a) stops)

theorem findSome?_eq {f : α → Option β} :
    l.findSome? f = (l.find? fun a ↦ (f a).isSome).bind f := by
  induction l with
  | nil => rfl
  | cons a l ih =>
    cases here : f a with
    | some b => simp [here]
    | none => simp [here, ih]

theorem flatMap {f : α → List β} {stop : β → Bool} (agree : Agree (fun a ↦ (f a).any stop) l m) :
    Agree stop (l.flatMap f) (m.flatMap f) := by
  intro wanted more
  rw [List.find?_flatMap, List.find?_flatMap, findSome?_eq, findSome?_eq]
  refine congrArg (Option.bind · _) (agree _ fun a stops ↦ ?_)
  obtain ⟨b, mem, stops⟩ := List.any_eq_true.mp stops
  rw [List.isSome_find?, List.any_eq_true]
  exact ⟨b, mem, more b stops⟩

end Agree

theorem SameUpTo.agree (same : SameUpTo stop l m) : Agree stop l m := by
  intro wanted more
  rw [← find?_upTo more, same, find?_upTo more]

/-- Something holds of the alternatives that a search tries. -/
def Until (stop : α → Bool) (next : α → Prop) : List α → Prop
  | [] => True
  | a :: l => next a ∧ (stop a = false → Until stop next l)

namespace Until

variable {next : α → Prop}

theorem of_forall (all : ∀ a ∈ l, next a) : Until stop next l := by
  induction l with
  | nil => trivial
  | cons a l ih =>
    obtain ⟨here, later⟩ := List.forall_mem_cons.mp all
    exact ⟨here, fun _ ↦ ih later⟩

theorem mono {next' : α → Prop} (tried : Until stop next l) (imp : ∀ a, next a → next' a) :
    Until stop next' l := by
  induction l with
  | nil => trivial
  | cons a l ih => exact ⟨imp a tried.1, fun goesOn ↦ ih (tried.2 goesOn)⟩

theorem append (tried : Until stop next l) (later : l.any stop = false → Until stop next m) :
    Until stop next (l ++ m) := by
  induction l with
  | nil => exact later rfl
  | cons a l ih =>
    refine ⟨tried.1, fun goesOn ↦ ih (tried.2 goesOn) fun none ↦ later ?_⟩
    rw [List.any_cons, goesOn, none]
    rfl

theorem flatMap {f : α → List β} {stop : β → Bool} {next : β → Prop}
    (tried : Until (fun a ↦ (f a).any stop) (fun a ↦ Until stop next (f a)) l) :
    Until stop next (l.flatMap f) := by
  induction l with
  | nil => trivial
  | cons a l ih => exact tried.1.append fun goesOn ↦ ih (tried.2 goesOn)

theorem agree {f g : α → List β} {stop : β → Bool}
    (tried : Until (fun a ↦ (f a).any stop) (fun a ↦ Agree stop (f a) (g a)) l) :
    Agree stop (l.flatMap f) (l.flatMap g) := by
  induction l with
  | nil => exact .refl
  | cons a l ih => exact tried.1.append fun goesOn ↦ ih (tried.2 goesOn)

/-- The alternatives that are tried are those that are found first when they are looked for. -/
theorem iff_find?_eq_some [DecidableEq α] :
    Until stop next l ↔ ∀ a, l.find? (fun b ↦ stop b || decide (b = a)) = some a → next a := by
  induction l with
  | nil => exact ⟨nofun, fun _ ↦ trivial⟩
  | cons b l ih =>
    unfold Until
    rw [ih]
    constructor
    · rintro ⟨here, later⟩ a found
      rw [List.find?_cons] at found
      cases stops : stop b with
      | true =>
        rw [stops] at found
        exact Option.some.inj found ▸ here
      | false =>
        by_cases same : b = a
        · exact same ▸ here
        · rw [stops, decide_eq_false same] at found
          exact later stops a found
    · intro all
      have here : next b := all b (by simp)
      refine ⟨here, fun goesOn a found ↦ ?_⟩
      by_cases same : b = a
      · exact same ▸ here
      · refine all a ?_
        rwa [List.find?_cons, goesOn, decide_eq_false same]

theorem of_agree (tried : Until stop next l) (agree : Agree stop l m) : Until stop next m := by
  classical
  rw [iff_find?_eq_some] at tried ⊢
  intro a found
  refine tried a (Eq.trans (agree _ fun b stops ↦ ?_) found)
  rw [stops, Bool.true_or]

end Until

end Pon.Alternatives
