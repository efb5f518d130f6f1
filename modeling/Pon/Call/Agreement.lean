import Pon.Call.Parts

/-!
# The binder and the rules of Python

Every call that the binder accepts is one that the rules accept, with the same slots. The other way
round the binder refuses two kinds of calls: a keyword that is spelled like a positional-only
parameter is an error even if there is a `**kwargs` to take it, and so is every call of a function
whose assigned `__kwdefaults__` has a key that is not an exact `str`.
-/

namespace Pon.Call

open Association

variable {Name V : Type}

/-! ## Every value is used once -/

theorem filterMap_take (values : List V) {count length : ℕ} (h : count ≤ length) :
    ((List.range length).filterMap fun index ↦ if index < count then values[index]? else none) =
      values.take count := by
  induction length generalizing count with
  | zero =>
    obtain rfl : count = 0 := by omega
    simp
  | succ length ih =>
    rw [List.range_succ, List.filterMap_append]
    rcases Nat.lt_or_ge length count with hlt | hge
    · obtain rfl : count = length + 1 := by omega
      have hcongr : ((List.range length).filterMap fun index ↦
          if index < length + 1 then values[index]? else none) =
          (List.range length).filterMap fun index ↦
            if index < length then values[index]? else none := by
        refine List.filterMap_congr fun index hindex ↦ ?_
        rw [List.mem_range] at hindex
        rw [if_pos (by omega), if_pos hindex]
      rw [hcongr, ih (Nat.le_refl _), List.take_add_one]
      cases hlast : values[length]? <;> simp [hlast]
    · rw [ih hge]
      simp [Nat.not_lt.mpr hge]

theorem filterMap_drop (names : List Name) (count : ℕ) (find : Name → Option V) :
    ((List.range names.length).filterMap fun index ↦
      if count ≤ index then names[index]?.bind find else none) = (names.drop count).filterMap find := by
  induction names generalizing count with
  | nil => simp
  | cons name rest ih =>
    rw [List.length_cons, List.range_succ_eq_map, List.filterMap_cons, List.filterMap_map]
    cases count with
    | zero =>
      have hrest := ih 0
      simp only [Nat.zero_le, if_true, List.drop_zero] at hrest
      simp only [Nat.zero_le, if_true, List.drop_zero, List.getElem?_cons_zero, Option.bind_some,
        List.filterMap_cons, Function.comp_def, List.getElem?_cons_succ, hrest]
    | succ count =>
      have hrest := ih count
      simpa [Function.comp_def] using hrest

theorem map_eq_filterMap {α : Type} {f : α → Option V} {l : List α} (h : ∀ x ∈ l, f x ≠ none) :
    l.map f = (l.filterMap f).map some := by
  induction l with
  | nil => rfl
  | cons x rest ih =>
    obtain ⟨value, hvalue⟩ := Option.ne_none_iff_exists'.mp (h x List.mem_cons_self)
    rw [List.map_cons, List.filterMap_cons, hvalue, List.map_cons,
      ih fun y hy ↦ h y (List.mem_cons_of_mem _ hy)]

theorem positionalValues_eq (call : Python.Arguments Name V) (positional : List V) :
    call.positionalValues = some positional ↔ ∃ rest,
      call.star.elim (.ok []) positionalArgsFromStar = .ok rest ∧
        positional = call.positional ++ rest := by
  unfold Python.Arguments.positionalValues
  cases call.star with
  | none => simp [eq_comm]
  | some star =>
    cases star <;> simp [positionalArgsFromStar, typeError, eq_comm]

variable (function : Function Name V) {positional : List V} {index : ℕ}

/-- The slots before the keywords are bound. -/
def startSlots (positional : List V) : Slots Name V :=
  setSlot (bindPositional function positional) function.params.varargsSlot
    (.tuple (Python.surplus function positional))

theorem length_startSlots : (startSlots function positional).length = function.params.totalSlots := by
  rw [startSlots, length_setSlot, length_bindPositional]

theorem at_startSlots (index : ℕ) :
    Slots.at (startSlots function positional) index =
      if function.params.varargsSlot = some index then
        some (.tuple (Python.surplus function positional))
      else (Python.positionalValue function positional index).map .object := by
  rw [startSlots, at_setSlot, length_bindPositional, at_bindPositional]
  by_cases hslot : function.params.varargsSlot = some index
  · have hlt : index < function.params.totalSlots := by
      unfold OwnedParamSpec.varargsSlot at hslot
      unfold OwnedParamSpec.totalSlots
      cases hvarargs : function.params.varargsName with
      | none => simp [hvarargs] at hslot
      | some _ =>
        rw [hvarargs, Option.map_some, Option.some_inj] at hslot
        simp only [Option.isSome_some, if_true]
        omega
    rw [if_pos ⟨hslot, hlt⟩, if_pos hslot]
  · rw [if_neg fun hboth ↦ hslot hboth.1, if_neg hslot]

theorem slot_ne_of_lt (h : index < function.params.names.length) :
    function.params.varargsSlot ≠ some index ∧ function.params.varkwSlot ≠ some index := by
  unfold OwnedParamSpec.varargsSlot OwnedParamSpec.varkwSlot
  constructor
  · cases function.params.varargsName with
    | none => simp
    | some _ =>
      rw [Option.map_some, ne_eq, Option.some_inj]
      omega
  · cases function.params.varkwName with
    | none => simp
    | some _ =>
      rw [Option.map_some, ne_eq, Option.some_inj]
      omega

theorem varkwSlot_ne (h : function.params.varargsSlot = some index) :
    function.params.varkwSlot ≠ some index := by
  unfold OwnedParamSpec.varargsSlot at h
  unfold OwnedParamSpec.varkwSlot
  cases hvarargs : function.params.varargsName with
  | none => simp [hvarargs] at h
  | some _ =>
    rw [hvarargs, Option.map_some, Option.some_inj] at h
    cases function.params.varkwName with
    | none => simp
    | some _ =>
      rw [Option.map_some, ne_eq, Option.some_inj, Option.isSome_some, if_pos rfl]
      omega

variable [DecidableEq Name] {keywords : List (Name × V)}

theorem used_perm (hdistinct : (keywords.map Prod.fst).Nodup)
    (honce : ∀ index, Python.positionalValue function positional index = none ∨
      Python.keywordValue function keywords index = none) :
    ((List.range function.params.names.length).filterMap
      (Python.supplied function positional keywords) ++ Python.surplus function positional ++
        (Python.unmatched function keywords).map Prod.snd).Perm
          (positional ++ keywords.map Prod.snd) := by
  have hsplit : ((List.range function.params.names.length).filterMap
      (Python.supplied function positional keywords)).Perm
        (positional.take function.params.positionalArity ++
          (Python.keywordNames function).filterMap fun name ↦ keywords.lookup name) := by
    have hperm := filterMap_or_perm (l := List.range function.params.names.length)
      fun index _ ↦ honce index
    rw [show (List.range function.params.names.length).filterMap
        (Python.positionalValue function positional) =
          positional.take function.params.positionalArity from
        filterMap_take positional (positionalArity_le function),
      show (List.range function.params.names.length).filterMap
        (Python.keywordValue function keywords) =
          (Python.keywordNames function).filterMap fun name ↦ keywords.lookup name from
        filterMap_drop _ _ _] at hperm
    exact hperm
  have hnames : (Python.keywordNames function).Nodup :=
    function.params.distinct.sublist (List.drop_sublist _ _)
  have hmatched := hsplit.trans
    ((filterMap_lookup_perm hnames hdistinct).append_left (positional.take _))
  have hkeywords : ((keywords.filter fun pair ↦ pair.1 ∈ Python.keywordNames function).map Prod.snd
      ++ (Python.unmatched function keywords).map Prod.snd).Perm (keywords.map Prod.snd) := by
    rw [← List.map_append]
    refine List.Perm.map _ ?_
    have hfilter := List.filter_append_perm
      (fun pair : Name × V ↦ decide (pair.1 ∈ Python.keywordNames function)) keywords
    simpa only [Python.unmatched, decide_not] using hfilter
  set taken := positional.take function.params.positionalArity with htaken
  set found := (keywords.filter fun pair ↦ pair.1 ∈ Python.keywordNames function).map Prod.snd
  set rest := (Python.unmatched function keywords).map Prod.snd
  have hswap : (taken ++ found ++ Python.surplus function positional).Perm
      (taken ++ Python.surplus function positional ++ found) := by
    rw [List.append_assoc, List.append_assoc]
    exact List.Perm.append_left _ List.perm_append_comm
  refine ((hmatched.append_right _).append_right rest).trans ((hswap.append_right rest).trans ?_)
  rw [htaken, Python.surplus, List.take_append_drop, List.append_assoc]
  exact hkeywords.append_left positional

/-! ## The slots of a call -/

variable {values : List V} {bound : Slots Name V}

section

variable (hlength : values.length = function.params.names.length)
include hlength

/-- What is in the slots that the rules give. -/
theorem at_slots (index : ℕ) :
    Slots.at ((Python.slots function positional keywords values).map some) index =
      if index < function.params.names.length then (values[index]?).map .object
      else if function.params.varargsSlot = some index then
        some (.tuple (Python.surplus function positional))
      else if function.params.varkwSlot = some index then
        some (.dict (Python.unmatched function keywords))
      else none := by
  unfold Python.slots OwnedParamSpec.varargsSlot OwnedParamSpec.varkwSlot
  rw [Slots.at, List.getD_eq_getElem?_getD, List.getElem?_map]
  by_cases hindex : index < function.params.names.length
  · rw [if_pos hindex, List.append_assoc, List.getElem?_append_left (by simpa [hlength] using hindex),
      List.getElem?_map, List.getElem?_eq_getElem (by omega)]
    rfl
  · rw [if_neg hindex, List.append_assoc,
      List.getElem?_append_right (by simp [hlength]; omega), List.length_map, hlength]
    obtain ⟨offset, rfl⟩ := Nat.exists_eq_add_of_le (Nat.not_lt.mp hindex)
    rw [Nat.add_sub_cancel_left]
    cases function.params.varargsName <;> cases function.params.varkwName <;>
      rcases offset with _ | _ | offset <;> simp

theorem length_slots :
    (Python.slots function positional keywords values).length = function.params.totalSlots := by
  unfold Python.slots OwnedParamSpec.totalSlots
  cases function.params.varargsName <;> cases function.params.varkwName <;> simp [hlength]

end

/-! ## Calls that the binder accepts -/

/-- No keyword is spelled like a positional-only parameter when there is a `**kwargs`. -/
def Unclashing (keywords : List (Name × V)) : Prop :=
  function.params.varkwName.isSome = true → ∀ pair ∈ keywords,
    pair.1 ∉ function.params.names.take function.params.positionalOnlyCount

/-- A keyword that the binder takes reaches its parameter by the rules. -/
theorem keywordAt_eq (htakes : ∀ pair ∈ keywords, Takes function bound pair.1) (index : ℕ) :
    keywordAt function keywords index = Python.keywordValue function keywords index := by
  unfold Python.keywordValue
  split
  · rfl
  · rename_i hlt
    cases hname : function.params.names[index]? with
    | none => simp [keywordAt, hname]
    | some name =>
      refine keywordAt_of_notMem function hname fun hmem ↦ ?_
      obtain ⟨pair, hpair, heq⟩ := List.mem_map.mp hmem
      have htake := htakes pair hpair
      rw [Takes, heq, idxOf?_eq_some function hname] at htake
      exact hlt htake.1

/-- The name of a parameter is positional-only or one of the keyword names, not both. -/
theorem mem_keywordNames {name : Name} (hname : function.params.names[index]? = some name) :
    name ∈ Python.keywordNames function ↔ function.params.positionalOnlyCount ≤ index := by
  constructor
  · intro hmem
    obtain ⟨offset, hoffset⟩ := List.mem_iff_getElem?.mp hmem
    rw [Python.keywordNames, List.getElem?_drop] at hoffset
    have hsame := (idxOf?_eq_some function hname).symm.trans (idxOf?_eq_some function hoffset)
    rw [Option.some_inj] at hsame
    omega
  · intro hle
    refine List.mem_iff_getElem?.mpr ⟨index - function.params.positionalOnlyCount, ?_⟩
    rw [Python.keywordNames, List.getElem?_drop, Nat.add_sub_cancel' hle, hname]

theorem notMem_take {name : Name} (hname : function.params.names[index]? = some name)
    (hle : function.params.positionalOnlyCount ≤ index) :
    name ∉ function.params.names.take function.params.positionalOnlyCount := by
  intro hmem
  obtain ⟨other, hother⟩ := List.mem_iff_getElem?.mp hmem
  rw [List.getElem?_take] at hother
  split at hother
  · have hsame := (idxOf?_eq_some function hname).symm.trans (idxOf?_eq_some function hother)
    rw [Option.some_inj] at hsame
    omega
  · cases hother

/-- The keywords that are left for `**kwargs`. -/
theorem filter_names_eq_unmatched (htakes : ∀ pair ∈ keywords, Takes function bound pair.1) :
    (keywords.filter fun pair ↦ pair.1 ∉ function.params.names) =
      Python.unmatched function keywords := by
  refine List.filter_congr fun pair hpair ↦ ?_
  have htake := htakes pair hpair
  unfold Takes at htake
  split at htake
  · rename_i hnone
    have hnotMem := List.idxOf?_eq_none_iff.mp hnone
    have hnot : pair.1 ∉ Python.keywordNames function := fun hmem ↦ hnotMem (List.mem_of_mem_drop hmem)
    rw [decide_eq_true hnotMem, decide_eq_true hnot]
  · rename_i index hindex
    have hname := getElem?_of_idxOf? function hindex
    have hmem := (mem_keywordNames function hname).mpr htake.1
    simp [List.mem_of_getElem? hname, hmem]

variable (keywordName : Name → Package.Text)

/-- The slots after the keywords are bound. -/
theorem at_bindKeywords (hdistinct : (keywords.map Prod.fst).Nodup) {pairs : List (Name × V)}
    (h : bindKeywords keywordName function keywords (startSlots function positional) [] =
      .ok (bound, pairs)) :
    (∀ pair ∈ keywords, Takes function (startSlots function positional) pair.1) ∧
      (setSlot bound function.params.varkwSlot (.dict pairs)).length = function.params.totalSlots ∧
      ∀ index, Slots.at (setSlot bound function.params.varkwSlot (.dict pairs)) index =
        if function.params.varkwSlot = some index then
          some (.dict (Python.unmatched function keywords))
        else if function.params.varargsSlot = some index then
          some (.tuple (Python.surplus function positional))
        else (Python.supplied function positional keywords index).map .object := by
  have hnames := names_length_le function
  obtain ⟨htakes, hlength, hat, hpairs⟩ := bindKeywords_ok function keywordName hdistinct
    (by rw [length_startSlots]; exact hnames) h
  rw [List.nil_append, filter_names_eq_unmatched function htakes] at hpairs
  rw [length_startSlots] at hlength
  refine ⟨htakes, by rw [length_setSlot, hlength], fun index ↦ ?_⟩
  rw [at_setSlot, hlength, hpairs, hat, at_startSlots, keywordAt_eq function htakes]
  by_cases hvarkw : function.params.varkwSlot = some index
  · have hlt : index < function.params.totalSlots := by
      unfold OwnedParamSpec.varkwSlot at hvarkw
      unfold OwnedParamSpec.totalSlots
      cases hname : function.params.varkwName with
      | none => simp [hname] at hvarkw
      | some _ =>
        rw [hname, Option.map_some, Option.some_inj] at hvarkw
        simp only [Option.isSome_some, if_true]
        omega
    rw [if_pos ⟨hvarkw, hlt⟩, if_pos hvarkw]
  · rw [if_neg fun hboth ↦ hvarkw hboth.1, if_neg hvarkw]
    by_cases hvarargs : function.params.varargsSlot = some index
    · rw [if_pos hvarargs, if_pos hvarargs, Option.some_or]
    · rw [if_neg hvarargs, if_neg hvarargs, Python.supplied]
      cases Python.positionalValue function positional index <;> simp

/-- A keyword that the binder takes has a parameter without a positional value. -/
theorem once_of_takes (htakes : ∀ pair ∈ keywords,
      Takes function (startSlots function positional) pair.1) (index : ℕ) :
    Python.positionalValue function positional index = none ∨
      Python.keywordValue function keywords index = none := by
  rw [or_iff_not_imp_right]
  intro hkeyword
  rw [← keywordAt_eq function htakes] at hkeyword
  obtain ⟨value, hvalue⟩ := Option.ne_none_iff_exists'.mp hkeyword
  obtain ⟨name, hname, hlookup⟩ := Option.bind_eq_some_iff.mp hvalue
  have hmem : name ∈ keywords.map Prod.fst := by
    by_contra hnotMem
    rw [lookup_eq_none hnotMem] at hlookup
    cases hlookup
  obtain ⟨pair, hpair, heq⟩ := List.mem_map.mp hmem
  have htake := htakes pair hpair
  rw [Takes, heq, idxOf?_eq_some function hname] at htake
  have hat := htake.2
  rw [at_startSlots, if_neg (slot_ne_of_lt function (List.getElem?_eq_some_iff.mp hname).1).1,
    Option.map_eq_none_iff] at hat
  exact hat

/-- Every call that the binder accepts is accepted by the rules, with the same slots. -/
theorem bindCollected_ok (hdistinct : (keywords.map Prod.fst).Nodup)
    (h : bindCollected keywordName function positional keywords = .ok bound) :
    (∃ values, Python.Binds function positional keywords values ∧
      bound = (Python.slots function positional keywords values).map some) ∧
        StrKeys function ∧ Unclashing function keywords := by
  have harity := positionalArity_le function
  have hnames := names_length_le function
  simp only [bindCollected] at h
  split at h
  · cases h
  rename_i hfits
  split at h
  · cases h
  rename_i bound₁ pairs hkeywords
  split at h
  · cases h
  rename_i bound₂ hpositional
  obtain ⟨htakes, hlength₁, hat₁⟩ := at_bindKeywords function keywordName hdistinct hkeywords
  obtain ⟨hlength₂, hdefaults₂, hat₂⟩ := fillPositional_ok function keywordName
    (by rw [hlength₁]; exact hnames) hpositional
  rw [hlength₁] at hlength₂
  obtain ⟨hkeys, hlength, hdefaults, hat⟩ := fillKeywordOnly_ok function keywordName
    (by rw [hlength₂]; exact hnames) h
  rw [hlength₂] at hlength
  have hsupplied : ∀ index < function.params.names.length,
      Slots.at (setSlot bound₁ function.params.varkwSlot (.dict pairs)) index =
        (Python.supplied function positional keywords index).map .object := fun index hindex ↦ by
    obtain ⟨hvarargs, hvarkw⟩ := slot_ne_of_lt function hindex
    rw [hat₁, if_neg hvarkw, if_neg hvarargs]
  have hparameter : ∀ index < function.params.names.length,
      Slots.at bound index =
          (Python.parameter function positional keywords index).map .object ∧
        Python.parameter function positional keywords index ≠ none := fun index hindex ↦ by
    unfold Python.parameter
    rw [hat, hat₂, hsupplied index hindex]
    rcases Nat.lt_or_ge index function.params.positionalArity with hlt | hge
    · have hnone : ¬ (function.params.positionalArity ≤ index ∧
          index < function.params.names.length) := by omega
      have hbound := hdefaults₂ index hlt
      rw [hsupplied index hindex] at hbound
      rw [if_pos hlt, if_neg hnone]
      cases hcase : Python.supplied function positional keywords index <;> simp_all
    · have hbound := hdefaults index hge hindex
      rw [hat₂, if_neg (Nat.not_lt.mpr hge), Option.or_none, hsupplied index hindex] at hbound
      rw [if_neg (Nat.not_lt.mpr hge), if_pos ⟨hge, hindex⟩]
      cases hcase : Python.supplied function positional keywords index <;> simp_all
  obtain ⟨values, hvalues⟩ : ∃ values : List V, (List.range function.params.names.length).map
      (Python.parameter function positional keywords) = values.map some :=
    ⟨_, map_eq_filterMap fun index hindex ↦ (hparameter index (List.mem_range.mp hindex)).2⟩
  have hcount : values.length = function.params.names.length := by
    simpa using congrArg List.length hvalues.symm
  have honce := once_of_takes function htakes
  refine ⟨⟨values, ⟨hdistinct, ?_, honce, ?_, hvalues, used_perm function hdistinct honce⟩, ?_⟩,
    hkeys, ?_⟩
  · rw [not_and_or] at hfits
    rcases hfits with hle | hvarargs
    · exact Or.inl (Nat.not_lt.mp hle)
    · exact Or.inr (Option.isSome_iff_ne_none.mpr hvarargs)
  · rw [or_iff_not_imp_right]
    intro hnone
    refine List.filter_eq_nil_iff.mpr fun pair hpair ↦ ?_
    have htake := htakes pair hpair
    unfold Takes at htake
    split at htake
    · exact absurd htake hnone
    · rename_i index hindex
      simpa using (mem_keywordNames function (getElem?_of_idxOf? function hindex)).mpr htake.1
  · refine Slots.ext ?_ fun index hindex ↦ ?_
    · rw [hlength, List.length_map, length_slots function hcount]
    · rw [at_slots function hcount]
      by_cases hlt : index < function.params.names.length
      · have hvalue : some (Python.parameter function positional keywords index) =
            (values[index]?).map some := by
          rw [← List.getElem?_map, ← hvalues, List.getElem?_map, List.getElem?_range hlt,
            Option.map_some]
        have hsome : values[index]? = Python.parameter function positional keywords index := by
          cases hcase : values[index]? <;> simp_all
        rw [if_pos hlt, (hparameter index hlt).1, hsome]
      · have hnone : Python.supplied function positional keywords index = none := by
          have hname : function.params.names[index]? = none := List.getElem?_eq_none (Nat.not_lt.mp hlt)
          simp only [Python.supplied, Python.positionalValue, Python.keywordValue, hname,
            Option.bind_none, ite_self, Option.or_none]
          rw [if_neg (by omega)]
        rw [if_neg hlt, hat, hat₂, if_neg (by omega), if_neg (by omega), Option.or_none,
          Option.or_none, hat₁, hnone]
        by_cases hvarargs : function.params.varargsSlot = some index
        · rw [if_neg (varkwSlot_ne function hvarargs), if_pos hvarargs, if_pos hvarargs]
        · rw [if_neg hvarargs, if_neg hvarargs]
          rfl
  · intro _ pair hpair
    have htake := htakes pair hpair
    unfold Takes at htake
    split at htake
    · rename_i hindex
      exact fun hmem ↦ List.idxOf?_eq_none_iff.mp hindex (List.mem_of_mem_take hmem)
    · rename_i index hindex
      exact notMem_take function (getElem?_of_idxOf? function hindex) htake.1

/-- The binder accepts the other calls that the rules accept. -/
theorem exists_bindCollected
    (hbinds : Python.Binds function positional keywords values) (hkeys : StrKeys function)
    (hclash : Unclashing function keywords) :
    ∃ bound, bindCollected keywordName function positional keywords = .ok bound := by
  have harity := positionalArity_le function
  have hnames := names_length_le function
  have htakes : ∀ pair ∈ keywords, Takes function (startSlots function positional) pair.1 := by
    intro pair hpair
    have hunmatched : pair.1 ∉ Python.keywordNames function →
        function.params.varkwName.isSome = true := fun hnot ↦ by
      refine hbinds.matched.resolve_left fun hnil ↦ ?_
      exact List.filter_eq_nil_iff.mp hnil pair hpair (by simpa using hnot)
    unfold Takes
    split
    · rename_i hnone
      exact hunmatched fun hmem ↦ List.idxOf?_eq_none_iff.mp hnone (List.mem_of_mem_drop hmem)
    · rename_i index hindex
      have hname := getElem?_of_idxOf? function hindex
      have hlt := (List.getElem?_eq_some_iff.mp hname).1
      have hle : function.params.positionalOnlyCount ≤ index := by
        by_contra hnot
        have hvarkw := hunmatched fun hmem ↦ hnot ((mem_keywordNames function hname).mp hmem)
        refine hclash hvarkw pair hpair (List.mem_iff_getElem?.mpr ⟨index, ?_⟩)
        rw [List.getElem?_take, if_pos (by omega), hname]
      refine ⟨hle, ?_⟩
      rw [at_startSlots, if_neg (slot_ne_of_lt function hlt).1, Option.map_eq_none_iff]
      refine (hbinds.once index).resolve_right ?_
      rw [Python.keywordValue, if_pos hle, hname, Option.bind_some, List.lookup_eq_none_iff]
      intro hall
      simpa using hall pair hpair
  have hparameter : ∀ index < function.params.names.length,
      Python.parameter function positional keywords index ≠ none := by
    intro index hindex
    have hmem : Python.parameter function positional keywords index ∈ values.map some := by
      rw [← hbinds.complete]
      exact List.mem_map_of_mem (List.mem_range.mpr hindex)
    obtain ⟨value, _, hvalue⟩ := List.mem_map.mp hmem
    rw [← hvalue]
    simp
  have hfits : ¬ (function.params.positionalArity < positional.length ∧
      function.params.varargsName = none) := by
    rintro ⟨hlt, hnone⟩
    rcases hbinds.fits with hle | hsome
    · omega
    · simp [hnone] at hsome
  obtain ⟨⟨bound₁, pairs⟩, hkeywords⟩ :=
    exists_bindKeywords function keywordName hbinds.distinct [] htakes
  obtain ⟨_, hlength₁, hat₁⟩ := at_bindKeywords function keywordName hbinds.distinct hkeywords
  have hbound₁ : ∀ index < function.params.names.length,
      Slots.at (setSlot bound₁ function.params.varkwSlot (.dict pairs)) index ≠ none ∨
        Python.defaultValue function index ≠ none := by
    intro index hindex
    obtain ⟨hvarargs, hvarkw⟩ := slot_ne_of_lt function hindex
    have hsome := hparameter index hindex
    unfold Python.parameter at hsome
    rw [hat₁, if_neg hvarkw, if_neg hvarargs]
    cases hcase : Python.supplied function positional keywords index <;> simp_all
  obtain ⟨bound₂, hpositional⟩ := exists_fillPositional function keywordName
    fun index hindex ↦ hbound₁ index (by omega)
  obtain ⟨_, _, hat₂⟩ := fillPositional_ok function keywordName
    (by rw [hlength₁]; exact hnames) hpositional
  obtain ⟨bound, hbound⟩ := exists_fillKeywordOnly function keywordName hkeys
    fun index hle hlt ↦ by
      rw [hat₂, if_neg (Nat.not_lt.mpr hle), Option.or_none]
      exact hbound₁ index hlt
  simp only [startSlots, Python.surplus] at hkeywords
  exact ⟨bound, by simp only [bindCollected, if_neg hfits, hkeywords, hpositional, hbound]⟩

/-- The rules determine the slots of a call. -/
theorem binds_unique {values' : List V} (h : Python.Binds function positional keywords values)
    (h' : Python.Binds function positional keywords values') : values = values' :=
  List.map_injective_iff.mpr (fun _ _ ↦ Option.some.inj) (h.complete.symm.trans h'.complete)

/-! ## Collected arguments -/

theorem extendKeywords_ok {pairs : List (Option Name × V)}
    {names names' : List Name} {values' : List V} (hnames : names.Nodup) :
    extendKeywords keywordName function pairs names values = .ok (names', values') ↔
      ∃ found : List (Name × V),
        (pairs.mapM fun pair : Option Name × V ↦ pair.1.map fun name ↦ (name, pair.2)) =
            some found ∧
          (names ++ found.map Prod.fst).Nodup ∧ names' = names ++ found.map Prod.fst ∧
            values' = values ++ found.map Prod.snd := by
  induction pairs generalizing names values with
  | nil =>
    rw [extendKeywords]
    constructor
    · intro h
      cases h
      exact ⟨[], rfl, by simpa using hnames, by simp, by simp⟩
    · rintro ⟨found, hfound, _, rfl, rfl⟩
      cases hfound
      simp
  | cons pair rest ih =>
    obtain ⟨key, value⟩ := pair
    cases key with
    | none => simp [extendKeywords, typeError]
    | some name =>
      rw [extendKeywords]
      split
      · rename_i hmem
        constructor
        · intro h
          cases h
        · rintro ⟨found, hfound, hnodup, _, _⟩
          rw [List.mapM_cons] at hfound
          simp only [Option.map_some, Option.bind_eq_bind, Option.bind_some,
            Option.bind_eq_some_iff] at hfound
          obtain ⟨others, _, heq⟩ := hfound
          cases heq
          rw [List.map_cons, List.nodup_append] at hnodup
          exact absurd rfl (hnodup.2.2 name hmem name List.mem_cons_self)
      · rename_i hnotMem
        have hnodup : (names ++ [name]).Nodup := by
          rw [List.nodup_append]
          refine ⟨hnames, List.nodup_singleton _, fun other hother last hlast heq ↦ ?_⟩
          rw [List.mem_singleton] at hlast
          exact hnotMem (hlast ▸ heq ▸ hother)
        rw [ih hnodup]
        constructor
        · rintro ⟨found, hfound, hall, rfl, rfl⟩
          refine ⟨(name, value) :: found, ?_, by simpa using hall, by simp, by simp⟩
          rw [List.mapM_cons, hfound]
          rfl
        · rintro ⟨found, hfound, hall, hnames', hvalues'⟩
          rw [List.mapM_cons] at hfound
          simp only [Option.map_some, Option.bind_eq_bind, Option.bind_some,
            Option.bind_eq_some_iff] at hfound
          obtain ⟨others, hothers, heq⟩ := hfound
          cases heq
          exact ⟨others, hothers, by simpa using hall, by simpa using hnames', by simpa using hvalues'⟩

variable (call : Python.Arguments Name V)

theorem keywordValues_eq (names : List Name) (values : List V) :
    call.dstar.elim (.ok (call.keywords.map Prod.fst, call.keywords.map Prod.snd))
        (fun mapping ↦ extendKeywordsFromMapping keywordName function mapping
          (call.keywords.map Prod.fst) (call.keywords.map Prod.snd)) = .ok (names, values) ↔
      ∃ keywords, call.keywordValues = some keywords ∧ (keywords.map Prod.fst).Nodup ∧
        names = keywords.map Prod.fst ∧ values = keywords.map Prod.snd := by
  unfold Python.Arguments.keywordValues
  cases call.dstar with
  | none =>
    rw [Option.elim_none]
    constructor
    · intro h
      cases h
      exact ⟨call.keywords, rfl, call.distinct, rfl, rfl⟩
    · rintro ⟨keywords, hkeywords, _, rfl, rfl⟩
      cases hkeywords
      rfl
  | some mapping =>
    cases mapping with
    | other typeName => simp [extendKeywordsFromMapping, typeError]
    | raising => simp [extendKeywordsFromMapping]
    | mapping pairs =>
      rw [Option.elim_some, extendKeywordsFromMapping, extendKeywords_ok function _ call.distinct]
      constructor
      · rintro ⟨found, hfound, hnodup, rfl, rfl⟩
        refine ⟨call.keywords ++ found, ?_, by simpa using hnodup, by simp, by simp⟩
        simp only [hfound, Option.map_some]
      · rintro ⟨keywords, hkeywords, hnodup, rfl, rfl⟩
        obtain ⟨found, hfound, rfl⟩ := Option.map_eq_some_iff.mp hkeywords
        exact ⟨found, hfound, by simpa using hnodup, by simp, by simp⟩

theorem bindArguments_ok (bound : Slots Name V) :
    bindArguments keywordName function call.positional
        ⟨call.keywords.map Prod.fst, call.keywords.map Prod.snd⟩ call.star call.dstar = .ok bound ↔
      ∃ positional keywords, call.positionalValues = some positional ∧
        call.keywordValues = some keywords ∧ (keywords.map Prod.fst).Nodup ∧
          bindCollected keywordName function positional keywords = .ok bound := by
  have hlength : ¬ (call.keywords.map Prod.fst).length ≠ (call.keywords.map Prod.snd).length := by
    simp
  simp only [bindArguments, if_neg hlength]
  constructor
  · intro h
    split at h
    · cases h
    · rename_i rest hrest
      split at h
      · cases h
      · rename_i names values hnames
        obtain ⟨keywords, hkeywords, hnodup, rfl, rfl⟩ :=
          (keywordValues_eq function keywordName call names values).mp hnames
        rw [← List.zip_of_prod rfl rfl] at h
        exact ⟨_, keywords, (positionalValues_eq call _).mpr ⟨rest, hrest, rfl⟩, hkeywords, hnodup, h⟩
  · rintro ⟨positional, keywords, hpositional, hkeywords, hnodup, h⟩
    obtain ⟨rest, hrest, rfl⟩ := (positionalValues_eq call positional).mp hpositional
    have hnames := (keywordValues_eq function keywordName call _ _).mpr
      ⟨keywords, hkeywords, hnodup, rfl, rfl⟩
    simp only [hrest, hnames, ← List.zip_of_prod rfl rfl, h]

/-! ## Agreement -/

/-- The binder accepts a call exactly if the rules do, and with the same slots. -/
def MeetsPython (keywordName : Name → Package.Text) (call : Python.Arguments Name V) : Prop :=
  ∀ bound, bindArguments keywordName function call.positional
      ⟨call.keywords.map Prod.fst, call.keywords.map Prod.snd⟩ call.star call.dstar = .ok bound ↔
    ∃ slots, Python.Accepts function call slots ∧ bound = slots.map some

/-- The call is none of those that the binder refuses against the rules. -/
def Regular (call : Python.Arguments Name V) : Prop :=
  StrKeys function ∧ ∀ keywords, call.keywordValues = some keywords → Unclashing function keywords

/-- The binder meets the rules of Python exactly on the calls that the rules refuse, or that neither
spell a keyword like a positional-only parameter next to a `**kwargs` nor find a key that is no
string in an assigned `__kwdefaults__`. -/
theorem bind_arguments_python (function : Function Name V) (keywordName : Name → Package.Text)
    (call : Python.Arguments Name V) :
    MeetsPython function keywordName call ↔
      ((∃ slots, Python.Accepts function call slots) → Regular function call) := by
  constructor
  · rintro hmeets ⟨slots, haccepts⟩
    obtain ⟨positional, keywords, _, hkeywords, hnodup, hbound⟩ :=
      (bindArguments_ok function keywordName call _).mp ((hmeets _).mpr ⟨slots, haccepts, rfl⟩)
    obtain ⟨_, hkeys, hclash⟩ := bindCollected_ok function keywordName hnodup hbound
    refine ⟨hkeys, fun other hother ↦ ?_⟩
    rw [hkeywords, Option.some_inj] at hother
    exact hother ▸ hclash
  · intro hregular bound
    rw [bindArguments_ok]
    constructor
    · rintro ⟨positional, keywords, hpositional, hkeywords, hnodup, hbound⟩
      obtain ⟨⟨values, hbinds, rfl⟩, _⟩ := bindCollected_ok function keywordName hnodup hbound
      exact ⟨_, ⟨positional, keywords, values, hpositional, hkeywords, hbinds, rfl⟩, rfl⟩
    · rintro ⟨slots, haccepts, rfl⟩
      obtain ⟨hkeys, hclash⟩ := hregular ⟨slots, haccepts⟩
      obtain ⟨positional, keywords, values, hpositional, hkeywords, hbinds, rfl⟩ := haccepts
      obtain ⟨bound, hbound⟩ := exists_bindCollected function keywordName hbinds hkeys
        (hclash keywords hkeywords)
      obtain ⟨⟨values', hbinds', rfl⟩, _⟩ :=
        bindCollected_ok function keywordName hbinds.distinct hbound
      rw [binds_unique function hbinds hbinds']
      exact ⟨positional, keywords, hpositional, hkeywords, hbinds.distinct, hbound⟩

/-- `def f(a, /, **kwargs)`. -/
def positionalOnlyFunction : Function ℕ ℕ where
  name := some "f".toList
  params :=
    { names := [1], positionalOnlyCount := 1, positionalCount := 0, keywordOnlyCount := 0,
      varargsName := none, varkwName := some 2, described := rfl, distinct := by simp }
  defaults := []
  kwdefaults := fun _ ↦ none
  defaultsOverride := none
  kwdefaultsOverride := none

/-- `f(10, a=20)`. -/
def clashingCall : Python.Arguments ℕ ℕ where
  positional := [10]
  keywords := [(1, 20)]
  distinct := by simp
  star := none
  dstar := none

/-- The rules put the keyword into the `**kwargs` of the call; the binder refuses it. -/
theorem bind_arguments_clash :
    ¬ ∀ (function : Function ℕ ℕ) (keywordName : ℕ → Package.Text) (call : Python.Arguments ℕ ℕ),
      MeetsPython function keywordName call := by
  intro hall
  have honce : ∀ index, Python.positionalValue positionalOnlyFunction [10] index = none ∨
      Python.keywordValue positionalOnlyFunction [(1, 20)] index = none := by
    rintro (_ | index)
    · exact Or.inr rfl
    · exact Or.inl rfl
  have hbinds : Python.Binds positionalOnlyFunction [10] [(1, 20)] [10] :=
    ⟨by simp, Or.inl (by decide), honce, Or.inr rfl, by decide,
      used_perm positionalOnlyFunction (by simp) honce⟩
  have haccepts : Python.Accepts positionalOnlyFunction clashingCall
      (Python.slots positionalOnlyFunction [10] [(1, 20)] [10]) :=
    ⟨[10], [(1, 20)], [10], rfl, rfl, hbinds, rfl⟩
  have hok := (hall positionalOnlyFunction (fun _ ↦ []) clashingCall _).mpr ⟨_, haccepts, rfl⟩
  simp [bindArguments, bindCollected, bindKeywords, clashingCall, positionalOnlyFunction, typeError,
    OwnedParamSpec.positionalArity] at hok

end Pon.Call
