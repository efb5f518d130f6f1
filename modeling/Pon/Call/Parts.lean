import Pon.Call.Python

/-!
# The parts of the binder

What each loop of the binder leaves in the slots, and when it ends without an error.
-/

namespace Pon.Call

open Association

/-! ## Slots -/

section Slots

variable {Name V : Type}

/-- What is in a slot. -/
def Slots.at (bound : Slots Name V) (index : ℕ) : Option (Arg Name V) :=
  bound.getD index none

variable {bound : Slots Name V} {index : ℕ}

theorem Slots.isBound_iff : bound.isBound index = true ↔ Slots.at bound index ≠ none :=
  Option.isSome_iff_ne_none

theorem Slots.not_isBound_iff : ¬ bound.isBound index = true ↔ Slots.at bound index = none := by
  rw [Slots.isBound_iff, not_not]

theorem Slots.at_set (bound : Slots Name V) (slot index : ℕ) (arg : Arg Name V) :
    Slots.at (bound.set slot (some arg)) index =
      if slot = index ∧ index < bound.length then some arg else Slots.at bound index := by
  simp only [Slots.at, List.getD_eq_getElem?_getD, List.getElem?_set]
  by_cases hslot : slot = index
  · subst hslot
    by_cases hlength : slot < bound.length
    · simp [hlength]
    · simp [hlength]
  · simp [hslot]

theorem Slots.at_of_le (h : bound.length ≤ index) : Slots.at bound index = none := by
  simp [Slots.at, List.getD_eq_getElem?_getD, h]

theorem Slots.ext {bound' : Slots Name V} (hlength : bound.length = bound'.length)
    (h : ∀ index < bound.length, Slots.at bound index = Slots.at bound' index) :
    bound = bound' := by
  refine List.ext_getElem hlength fun index hindex hindex' ↦ ?_
  have hat := h index hindex
  simpa [Slots.at, List.getD_eq_getElem?_getD, hindex, hindex'] using hat

theorem length_foldl_set (values : List V) (start : ℕ) (bound : Slots Name V) :
    ((values.zipIdx start).foldl
      (fun bound value ↦ bound.set value.2 (some (.object value.1))) bound).length = bound.length := by
  induction values generalizing start bound with
  | nil => rfl
  | cons value rest ih =>
    rw [List.zipIdx_cons, List.foldl_cons, ih, List.length_set]

/-- Setting consecutive slots to a list of values. -/
theorem at_foldl_set (values : List V) (start : ℕ) (bound : Slots Name V)
    (hindex : index < bound.length) :
    Slots.at ((values.zipIdx start).foldl
      (fun bound value ↦ bound.set value.2 (some (.object value.1))) bound) index =
        if start ≤ index ∧ index < start + values.length then
          (values[index - start]?).map .object
        else Slots.at bound index := by
  induction values generalizing start bound with
  | nil =>
    have hnone : ¬ (start ≤ index ∧ index < start + ([] : List V).length) := by
      rw [List.length_nil]
      omega
    rw [if_neg hnone]
    rfl
  | cons value rest ih =>
    rw [List.zipIdx_cons, List.foldl_cons, ih _ _ (by simpa using hindex), Slots.at_set]
    by_cases hself : start = index
    · subst hself
      rw [if_neg (by omega), if_pos ⟨rfl, hindex⟩, if_pos (by simp), Nat.sub_self,
        List.getElem?_cons_zero, Option.map_some]
    · have hnot : ¬ (start = index ∧ index < bound.length) := fun h ↦ hself h.1
      rw [if_neg hnot]
      by_cases hlt : start + 1 ≤ index ∧ index < start + 1 + rest.length
      · have hsub : index - start = index - (start + 1) + 1 := by omega
        rw [if_pos hlt, if_pos (by simp only [List.length_cons]; omega), hsub, List.getElem?_cons_succ]
      · rw [if_neg hlt, if_neg (by simp only [List.length_cons]; omega)]

end Slots

variable {Name V : Type}

theorem length_setSlot (bound : Slots Name V) (slot : Option ℕ) (arg : Arg Name V) :
    (setSlot bound slot arg).length = bound.length := by
  cases slot <;> simp [setSlot]

theorem at_setSlot (bound : Slots Name V) (slot : Option ℕ) (index : ℕ) (arg : Arg Name V) :
    Slots.at (setSlot bound slot arg) index =
      if slot = some index ∧ index < bound.length then some arg else Slots.at bound index := by
  cases slot with
  | none => simp [setSlot]
  | some slot => simp only [setSlot, Slots.at_set, Option.some_inj]

/-! ## Positional values -/

variable (function : Function Name V)

theorem positionalArity_le : function.params.positionalArity ≤ function.params.names.length := by
  have h := function.params.described
  unfold OwnedParamSpec.positionalArity
  omega

theorem names_length_le : function.params.names.length ≤ function.params.totalSlots := by
  unfold OwnedParamSpec.totalSlots
  omega

variable (positional : List V)

theorem length_bindPositional :
    (bindPositional function positional).length = function.params.totalSlots := by
  rw [bindPositional, length_foldl_set, List.length_replicate]

theorem at_bindPositional (index : ℕ) :
    Slots.at (bindPositional function positional) index =
      (Python.positionalValue function positional index).map .object := by
  have hle := Nat.le_trans (positionalArity_le function) (names_length_le function)
  unfold Python.positionalValue
  by_cases hindex : index < function.params.totalSlots
  · rw [bindPositional, at_foldl_set _ _ _ (by simpa using hindex)]
    have hat : Slots.at (List.replicate function.params.totalSlots
        (none : Option (Arg Name V))) index = none := by
      simp [Slots.at, List.getD_eq_getElem?_getD, hindex]
    rw [hat, Nat.zero_add, Nat.sub_zero, List.getElem?_take]
    by_cases harity : index < function.params.positionalArity
    · rw [if_pos harity]
      by_cases hlength : index < positional.length
      · rw [if_pos ⟨Nat.zero_le _, by rw [List.length_take]; omega⟩]
      · rw [if_neg (by simp; omega), List.getElem?_eq_none (by omega), Option.map_none]
    · rw [if_neg (by simp; omega), if_neg harity]
      rfl
  · rw [Slots.at_of_le (by rw [length_bindPositional]; omega), if_neg (by omega), Option.map_none]

/-! ## Keywords -/

section Keywords

variable [DecidableEq Name]

/-- The keyword with the name of the parameter. -/
def keywordAt (keywords : List (Name × V)) (index : ℕ) : Option V :=
  function.params.names[index]?.bind fun name ↦ keywords.lookup name

/-- The binder takes the keyword. -/
def Takes (bound : Slots Name V) (name : Name) : Prop :=
  match function.params.names.idxOf? name with
  | none => function.params.varkwName.isSome = true
  | some index => function.params.positionalOnlyCount ≤ index ∧ Slots.at bound index = none

variable {name : Name} {index : ℕ} {keywords : List (Name × V)}

variable {value : V} {rest : List (Name × V)} {bound : Slots Name V}

theorem keywordAt_cons_self (h : function.params.names[index]? = some name) :
    keywordAt function ((name, value) :: rest) index = some value := by
  simp [keywordAt, h]

theorem keywordAt_cons_of_ne (h : function.params.names[index]? ≠ some name) :
    keywordAt function ((name, value) :: rest) index = keywordAt function rest index := by
  unfold keywordAt
  cases hname : function.params.names[index]? with
  | none => rfl
  | some other =>
    have hne : other ≠ name := fun heq ↦ h (heq ▸ hname)
    rw [Option.bind_some, Option.bind_some, lookup_cons_of_ne hne]

theorem keywordAt_of_notMem (hname : function.params.names[index]? = some name)
    (h : name ∉ keywords.map Prod.fst) :
    keywordAt function keywords index = none := by
  rw [keywordAt, hname, Option.bind_some, lookup_eq_none h]

theorem getElem?_of_idxOf? (h : function.params.names.idxOf? name = some index) :
    function.params.names[index]? = some name := by
  obtain ⟨hlt, heq, _⟩ := List.idxOf?_eq_some_iff.mp h
  rw [List.getElem?_eq_getElem hlt, heq]

theorem idxOf?_eq_some (h : function.params.names[index]? = some name) :
    function.params.names.idxOf? name = some index := by
  obtain ⟨hlt, heq⟩ := List.getElem?_eq_some_iff.mp h
  refine List.idxOf?_eq_some_iff.mpr ⟨hlt, heq, fun other hother hsame ↦ ?_⟩
  have hindex := (List.Nodup.getElem_inj_iff function.params.distinct).mp (hsame.trans heq.symm)
  omega

variable (keywordName : Name → Package.Text)

/-- The loop over the keywords: it takes them all, and puts each into its slot or into the pairs for
`**kwargs`. -/
theorem bindKeywords_ok (hdistinct : (keywords.map Prod.fst).Nodup) {bound' : Slots Name V}
    {pairs pairs' : List (Name × V)} (hlength : function.params.names.length ≤ bound.length)
    (h : bindKeywords keywordName function keywords bound pairs = .ok (bound', pairs')) :
    (∀ pair ∈ keywords, Takes function bound pair.1) ∧ bound'.length = bound.length ∧
      (∀ index, Slots.at bound' index =
        (Slots.at bound index).or ((keywordAt function keywords index).map .object)) ∧
      pairs' = pairs ++ keywords.filter fun pair ↦ pair.1 ∉ function.params.names := by
  induction keywords generalizing bound pairs with
  | nil =>
    cases h
    refine ⟨by simp, rfl, fun index ↦ ?_, by simp⟩
    cases hname : function.params.names[index]? <;> simp [keywordAt, hname]
  | cons pair rest ih =>
    obtain ⟨name, value⟩ := pair
    rw [List.map_cons, List.nodup_cons] at hdistinct
    rw [bindKeywords] at h
    split at h
    · -- The keyword goes to the pairs.
      rename_i hnone
      split at h
      · rename_i hvarkw
        obtain ⟨htakes, hlength', hat, hpairs⟩ := ih hdistinct.2 hlength h
        have hnotMem : name ∉ function.params.names := List.idxOf?_eq_none_iff.mp hnone
        refine ⟨?_, hlength', fun index ↦ ?_, ?_⟩
        · intro other hother
          rcases List.mem_cons.mp hother with rfl | hother
          · simpa only [Takes, hnone] using hvarkw
          · exact htakes other hother
        · rw [hat index, keywordAt_cons_of_ne]
          exact fun hname ↦ hnotMem (List.mem_of_getElem? hname)
        · rw [hpairs, List.filter_cons_of_pos (by simpa using hnotMem), List.append_assoc]
          rfl
      · cases h
    · -- The keyword goes to the slot of its parameter.
      rename_i slot hslot
      have hname := getElem?_of_idxOf? function hslot
      have hlt : slot < bound.length := by
        have := (List.getElem?_eq_some_iff.mp hname).1
        omega
      split at h
      · cases h
      · rename_i hnotOnly
        split at h
        · cases h
        · rename_i hunbound
          have hfree := Slots.not_isBound_iff.mp hunbound
          obtain ⟨htakes, hlength', hat, hpairs⟩ := ih hdistinct.2 (by simpa using hlength) h
          rw [List.length_set] at hlength'
          refine ⟨?_, hlength', fun index ↦ ?_, ?_⟩
          · intro other hother
            rcases List.mem_cons.mp hother with rfl | hother
            · simp only [Takes, hslot]
              exact ⟨by omega, hfree⟩
            · have htake := htakes other hother
              unfold Takes at htake ⊢
              split at htake
              · exact htake
              · rename_i index hindex
                refine ⟨htake.1, ?_⟩
                have hne : ¬ (slot = index ∧ index < bound.length) := by
                  rintro ⟨rfl, _⟩
                  have hsame := (getElem?_of_idxOf? function hindex).symm.trans hname
                  rw [Option.some_inj] at hsame
                  exact hdistinct.1 (List.mem_map.mpr ⟨other, hother, hsame⟩)
                have hat' := htake.2
                rwa [Slots.at_set, if_neg hne] at hat'
          · rw [hat index, Slots.at_set]
            by_cases hindex : slot = index
            · subst hindex
              rw [if_pos ⟨rfl, hlt⟩, hfree, keywordAt_cons_self function hname]
              rfl
            · rw [if_neg fun hboth ↦ hindex hboth.1, keywordAt_cons_of_ne]
              intro hname'
              exact hindex (Option.some_inj.mp
                ((idxOf?_eq_some function hname).symm.trans (idxOf?_eq_some function hname')))
          · rw [hpairs, List.filter_cons_of_neg]
            simpa using List.mem_of_getElem? hname

/-- The loop ends if every keyword is taken. -/
theorem exists_bindKeywords (hdistinct : (keywords.map Prod.fst).Nodup) (pairs : List (Name × V))
    (htakes : ∀ pair ∈ keywords, Takes function bound pair.1) :
    ∃ result, bindKeywords keywordName function keywords bound pairs = .ok result := by
  induction keywords generalizing bound pairs with
  | nil => exact ⟨_, rfl⟩
  | cons pair rest ih =>
    obtain ⟨name, value⟩ := pair
    rw [List.map_cons, List.nodup_cons] at hdistinct
    have htake := htakes _ List.mem_cons_self
    rw [bindKeywords]
    unfold Takes at htake
    split at htake
    · rename_i hnone
      simp only [hnone, htake, if_true]
      exact ih hdistinct.2 _ fun other hother ↦ htakes other (List.mem_cons_of_mem _ hother)
    · rename_i slot hslot
      have hunbound := Slots.not_isBound_iff.mpr htake.2
      simp only [hslot, Nat.not_lt.mpr htake.1, if_false, hunbound]
      refine ih hdistinct.2 _ fun other hother ↦ ?_
      have hold := htakes other (List.mem_cons_of_mem _ hother)
      unfold Takes at hold ⊢
      split at hold
      · exact hold
      · rename_i index hindex
        refine ⟨hold.1, ?_⟩
        rw [Slots.at_set, if_neg]
        · exact hold.2
        · rintro ⟨rfl, _⟩
          have hsame := (getElem?_of_idxOf? function hindex).symm.trans
            (getElem?_of_idxOf? function hslot)
          rw [Option.some_inj] at hsame
          exact hdistinct.1 (List.mem_map.mpr ⟨other, hother, hsame⟩)

end Keywords

/-! ## Defaults -/

variable (default : ℕ → Option V)

theorem length_fillDefaults (indices : List ℕ) (bound : Slots Name V)
    (missing : List Name) :
    (fillDefaults function default indices bound missing).1.length = bound.length := by
  induction indices generalizing bound missing with
  | nil => rfl
  | cons index rest ih =>
    rw [fillDefaults]
    split
    · exact ih bound missing
    · split
      · rw [ih, List.length_set]
      · exact ih bound _

variable {indices : List ℕ} {bound : Slots Name V}

/-- Every unbound slot of the indices takes its default. -/
theorem at_fillDefaults (hlength : ∀ index ∈ indices, index < bound.length)
    (missing : List Name) (index : ℕ) :
    Slots.at (fillDefaults function default indices bound missing).1 index =
      (Slots.at bound index).or (if index ∈ indices then (default index).map .object else none) := by
  induction indices generalizing bound missing with
  | nil => simp [fillDefaults]
  | cons first rest ih =>
    obtain ⟨hfirst, hrest⟩ := List.forall_mem_cons.mp hlength
    rw [fillDefaults]
    split
    · rename_i hbound
      obtain ⟨arg, harg⟩ := Option.ne_none_iff_exists'.mp (Slots.isBound_iff.mp hbound)
      rw [ih hrest]
      by_cases hself : index = first <;> simp [hself, harg]
    · rename_i hunbound
      have hfree := Slots.not_isBound_iff.mp hunbound
      split
      · rename_i value hvalue
        rw [ih (by simpa using hrest), Slots.at_set]
        by_cases hself : index = first <;> simp [hself, eq_comm, hfree, hvalue, hfirst]
      · rename_i hnone
        rw [ih hrest]
        by_cases hself : index = first <;> simp [hself, hfree, hnone]

/-- No name is missing exactly if every unbound slot of the indices has a default. -/
theorem fillDefaults_missing
    (hnames : ∀ index ∈ indices, index < function.params.names.length) (missing : List Name) :
    (fillDefaults function default indices bound missing).2 = [] ↔
      missing = [] ∧ ∀ index ∈ indices, Slots.at bound index ≠ none ∨ default index ≠ none := by
  induction indices generalizing bound missing with
  | nil => simp [fillDefaults]
  | cons first rest ih =>
    obtain ⟨hfirst, hrest⟩ := List.forall_mem_cons.mp hnames
    rw [fillDefaults, List.forall_mem_cons]
    split
    · rename_i hbound
      simp [ih hrest, Slots.isBound_iff.mp hbound]
    · rename_i hunbound
      have hfree := Slots.not_isBound_iff.mp hunbound
      split
      · rename_i value hvalue
        rw [ih hrest]
        refine and_congr_right fun _ ↦ ?_
        simp only [hvalue, ne_eq, reduceCtorEq, not_false_eq_true, or_true, true_and]
        refine forall₂_congr fun index _ ↦ ?_
        by_cases hself : first = index
        · simp [← hself, hvalue]
        · simp [Slots.at_set, hself]
      · rename_i hnone
        simp [ih hrest, List.getElem?_eq_getElem hfirst, hfree, hnone]

theorem tailDefault_eq {arity index : ℕ} (defaults : List V) (h : index < arity) :
    tailDefault arity defaults index = defaults.reverse[arity - 1 - index]? := by
  unfold tailDefault
  by_cases hstart : arity ≤ index + defaults.length
  · have hindex : ((index : ℤ) - ((arity : ℤ) - defaults.length)).toNat =
        defaults.length - 1 - (arity - 1 - index) := by omega
    rw [if_pos (by omega), hindex, List.getElem?_reverse (by omega)]
  · rw [if_neg (by omega), List.getElem?_eq_none (by rw [List.length_reverse]; omega)]

section Fill

variable [DecidableEq Name] (keywordName : Name → Package.Text)

variable {entries : List (KwKey Name × V)} {bound' : Slots Name V}

theorem kwdefaultsMap_ok (hdistinct : (entries.filterMap fun entry ↦ entry.1.equal).Nodup)
    {map map' : Name → Option V} (h : kwdefaultsMap entries map = .ok map') :
    (∀ entry ∈ entries, ∃ name, entry.1 = .str name) ∧ ∀ name, map' name =
      ((entries.find? fun entry ↦ entry.1.equal = some name).map Prod.snd).or (map name) := by
  induction entries generalizing map with
  | nil =>
    cases h
    simp
  | cons entry rest ih =>
    obtain ⟨key, value⟩ := entry
    cases key with
    | other equal => cases h
    | str first =>
      have hnodup : first ∉ rest.filterMap (fun entry ↦ entry.1.equal) ∧
          (rest.filterMap fun entry ↦ entry.1.equal).Nodup := by
        simpa only [List.filterMap_cons, KwKey.equal, List.nodup_cons] using hdistinct
      obtain ⟨hkeys, hmap⟩ := ih hnodup.2 h
      refine ⟨?_, fun name ↦ ?_⟩
      · intro entry hentry
        rcases List.mem_cons.mp hentry with rfl | hentry
        · exact ⟨first, rfl⟩
        · exact hkeys entry hentry
      · rw [hmap name]
        by_cases hname : name = first
        · subst hname
          have hnone : rest.find? (fun entry ↦ entry.1.equal = some name) = none := by
            rw [List.find?_eq_none]
            intro entry hentry heq
            exact hnodup.1 (List.mem_filterMap.mpr ⟨entry, hentry, of_decide_eq_true heq⟩)
          rw [hnone, List.find?_cons_of_pos (by simp [KwKey.equal]), Function.update_self]
          rfl
        · have hne : first ≠ name := fun heq ↦ hname heq.symm
          simp [KwKey.equal, hne, hname]

theorem exists_kwdefaultsMap (hkeys : ∀ entry ∈ entries, ∃ name, entry.1 = .str name)
    (map : Name → Option V) :
    ∃ map', kwdefaultsMap entries map = .ok map' := by
  induction entries generalizing map with
  | nil => exact ⟨_, rfl⟩
  | cons entry rest ih =>
    obtain ⟨key, value⟩ := entry
    obtain ⟨name, hname⟩ := hkeys _ List.mem_cons_self
    obtain rfl : key = .str name := hname
    exact ih (fun other hother ↦ hkeys other (List.mem_cons_of_mem _ hother)) _

/-- The keys of an assigned `__kwdefaults__` are exact strings. -/
def StrKeys : Prop :=
  ∀ dict, function.kwdefaultsOverride = some (some dict) →
    ∀ entry ∈ dict.entries, ∃ name, entry.1 = .str name

theorem kwdefaultsOverrideMap_ok {override : Option (Name → Option V)}
    (h : kwdefaultsOverrideMap function = .ok override) :
    StrKeys function ∧ override.getD function.kwdefaults = Python.kwdefaults function := by
  unfold kwdefaultsOverrideMap at h
  split at h
  · rename_i hnone
    cases h
    refine ⟨fun dict hdict ↦ by simp [hnone] at hdict, ?_⟩
    funext name
    simp [Python.kwdefaults, hnone]
  · rename_i hcleared
    cases h
    refine ⟨fun dict hdict ↦ by simp [hcleared] at hdict, ?_⟩
    funext name
    simp [Python.kwdefaults, hcleared]
  · rename_i dict hassigned
    cases hmap : kwdefaultsMap dict.entries fun _ ↦ none with
    | error _ =>
      rw [hmap] at h
      cases h
    | ok map =>
      rw [hmap] at h
      cases h
      obtain ⟨hkeys, hall⟩ := kwdefaultsMap_ok dict.distinct hmap
      refine ⟨fun dict' hdict' ↦ ?_, ?_⟩
      · rw [hassigned, Option.some_inj, Option.some_inj] at hdict'
        exact hdict' ▸ hkeys
      · funext name
        simp [Python.kwdefaults, hassigned, hall name]

theorem exists_kwdefaultsOverrideMap (h : StrKeys function) :
    ∃ override, kwdefaultsOverrideMap function = .ok override := by
  unfold kwdefaultsOverrideMap
  split
  · exact ⟨_, rfl⟩
  · exact ⟨_, rfl⟩
  · rename_i dict hassigned
    obtain ⟨map, hmap⟩ := exists_kwdefaultsMap (h dict hassigned) fun _ ↦ none
    exact ⟨_, by rw [hmap]; rfl⟩

omit [DecidableEq Name] in
theorem defaults_eq :
    (defaultsOverrideValues function).getD function.defaults = Python.defaults function := by
  unfold defaultsOverrideValues Python.defaults
  cases function.defaultsOverride <;> rfl

variable {index : ℕ} {bound : Slots Name V}

theorem tailDefault_defaultValue (h : index < function.params.positionalArity) :
    tailDefault function.params.positionalArity
      ((defaultsOverrideValues function).getD function.defaults) index =
        Python.defaultValue function index := by
  rw [defaults_eq, tailDefault_eq _ h, Python.defaultValue, if_pos h]

theorem fillPositional_ok (hlength : function.params.names.length ≤ bound.length)
    (h : fillPositional keywordName function bound = .ok bound') :
    bound'.length = bound.length ∧
      (∀ index < function.params.positionalArity,
        Slots.at bound index ≠ none ∨ Python.defaultValue function index ≠ none) ∧
      ∀ index, Slots.at bound' index = (Slots.at bound index).or
        (if index < function.params.positionalArity then
          (Python.defaultValue function index).map .object else none) := by
  have harity := positionalArity_le function
  simp only [fillPositional] at h
  split at h
  · cases h
  · rename_i hmissing
    cases h
    rw [not_not, fillDefaults_missing function _ fun index hindex ↦ by
      have := List.mem_range.mp hindex
      omega] at hmissing
    refine ⟨length_fillDefaults function _ _ _ _, fun index hindex ↦ ?_, fun index ↦ ?_⟩
    · rw [← tailDefault_defaultValue function hindex]
      exact hmissing.2 index (List.mem_range.mpr hindex)
    · rw [at_fillDefaults function _ fun index hindex ↦ by
        have := List.mem_range.mp hindex
        omega]
      by_cases hindex : index < function.params.positionalArity
      · rw [if_pos (List.mem_range.mpr hindex), if_pos hindex, tailDefault_defaultValue function hindex]
      · rw [if_neg fun hmem ↦ hindex (List.mem_range.mp hmem), if_neg hindex]

theorem exists_fillPositional (h : ∀ index < function.params.positionalArity,
      Slots.at bound index ≠ none ∨ Python.defaultValue function index ≠ none) :
    ∃ bound', fillPositional keywordName function bound = .ok bound' := by
  have harity := positionalArity_le function
  simp only [fillPositional]
  rw [if_neg]
  · exact ⟨_, rfl⟩
  · rw [not_not, fillDefaults_missing function _ fun index hindex ↦ by
      have := List.mem_range.mp hindex
      omega]
    refine ⟨rfl, fun index hindex ↦ ?_⟩
    rw [List.mem_range] at hindex
    rw [tailDefault_defaultValue function hindex]
    exact h index hindex

omit [DecidableEq Name] in
/-- The indices of the keyword-only parameters. -/
theorem mem_keywordOnly :
    index ∈ List.range' function.params.positionalArity function.params.keywordOnlyCount ↔
      function.params.positionalArity ≤ index ∧ index < function.params.names.length := by
  have hdescribed := function.params.described
  rw [List.mem_range'_1, OwnedParamSpec.positionalArity]
  omega

theorem keywordDefault_defaultValue (h : function.params.positionalArity ≤ index) :
    (function.params.names[index]?.bind (Python.kwdefaults function)) =
      Python.defaultValue function index := by
  rw [Python.defaultValue, if_neg (by omega)]

theorem fillKeywordOnly_ok (hlength : function.params.names.length ≤ bound.length)
    (h : fillKeywordOnly keywordName function bound = .ok bound') :
    StrKeys function ∧ bound'.length = bound.length ∧
      (∀ index, function.params.positionalArity ≤ index → index < function.params.names.length →
        Slots.at bound index ≠ none ∨ Python.defaultValue function index ≠ none) ∧
      ∀ index, Slots.at bound' index = (Slots.at bound index).or
        (if function.params.positionalArity ≤ index ∧ index < function.params.names.length then
          (Python.defaultValue function index).map .object else none) := by
  unfold fillKeywordOnly at h
  split at h
  · cases h
  · rename_i override hoverride
    obtain ⟨hkeys, hdefaults⟩ := kwdefaultsOverrideMap_ok function hoverride
    simp only [hdefaults] at h
    split at h
    · cases h
    · rename_i hmissing
      cases h
      rw [not_not, fillDefaults_missing function _ fun index hindex ↦
        ((mem_keywordOnly function).mp hindex).2] at hmissing
      refine ⟨hkeys, length_fillDefaults function _ _ _ _, fun index hle hlt ↦ ?_, fun index ↦ ?_⟩
      · rw [← keywordDefault_defaultValue function hle]
        exact hmissing.2 index ((mem_keywordOnly function).mpr ⟨hle, hlt⟩)
      · rw [at_fillDefaults function _ fun index hindex ↦
          Nat.lt_of_lt_of_le ((mem_keywordOnly function).mp hindex).2 hlength]
        by_cases hindex : function.params.positionalArity ≤ index ∧ index < function.params.names.length
        · rw [if_pos ((mem_keywordOnly function).mpr hindex), if_pos hindex,
            keywordDefault_defaultValue function hindex.1]
        · rw [if_neg fun hmem ↦ hindex ((mem_keywordOnly function).mp hmem), if_neg hindex]

theorem exists_fillKeywordOnly (hkeys : StrKeys function)
    (h : ∀ index, function.params.positionalArity ≤ index → index < function.params.names.length →
      Slots.at bound index ≠ none ∨ Python.defaultValue function index ≠ none) :
    ∃ bound', fillKeywordOnly keywordName function bound = .ok bound' := by
  obtain ⟨override, hoverride⟩ := exists_kwdefaultsOverrideMap function hkeys
  have hdefaults := (kwdefaultsOverrideMap_ok function hoverride).2
  simp only [fillKeywordOnly, hoverride, hdefaults]
  rw [if_neg]
  · exact ⟨_, rfl⟩
  · rw [not_not, fillDefaults_missing function _ fun index hindex ↦
      ((mem_keywordOnly function).mp hindex).2]
    refine ⟨rfl, fun index hindex ↦ ?_⟩
    obtain ⟨hle, hlt⟩ := (mem_keywordOnly function).mp hindex
    rw [keywordDefault_defaultValue function hle]
    exact h index hle hlt

end Fill

end Pon.Call
