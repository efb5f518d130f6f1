import Pon.Package.Names

/-!
# TOML documents

The items of a TOML document and the operations on them that the package manager uses. Formatting is
left out: comments, the positions of tables and whether a table is dotted or implicit. Numbers and dates
are only told apart from the other items.
-/

namespace Pon.Toml

open Package

inductive Item where
  | string (text : Text)
  | boolean (value : Bool)
  | literal (text : Text)
  | array (values : List Item)
  | inlineTable (entries : List (Text × Item))
  | table (entries : List (Text × Item))
  | arrayOfTables (tables : List (List (Text × Item)))

/-- The entries of a table, in the order of their insertion. -/
abbrev Entries := List (Text × Item)

def Entries.get? (key : Text) (entries : Entries) : Option Item :=
  (entries.find? fun entry ↦ decide (entry.1 = key)).map Prod.snd

/-- A key that is there keeps its position. -/
def Entries.insert (key : Text) (item : Item) (entries : Entries) : Entries :=
  if key ∈ entries.map Prod.fst then
    entries.map fun entry ↦ if entry.1 = key then (key, item) else entry
  else entries ++ [(key, item)]

def Entries.remove (key : Text) (entries : Entries) : Entries :=
  entries.filter fun entry ↦ decide (entry.1 ≠ key)

namespace Item

/-- `as_table_like`. -/
def entries? : Item → Option Entries
  | .table entries | .inlineTable entries => some entries
  | _ => none

def asString? : Item → Option Text
  | .string text => some text
  | _ => none

def asBool? : Item → Option Bool
  | .boolean value => some value
  | _ => none

def asArray? : Item → Option (List Item)
  | .array values => some values
  | _ => none

def asArrayOfTables? : Item → Option (List Entries)
  | .arrayOfTables tables => some tables
  | _ => none

/-- `item_at`. -/
def itemAt (item : Item) : List Text → Option Item
  | [] => some item
  | key :: path => do
      let entries ← item.entries?
      let child ← Entries.get? key entries
      child.itemAt path

/-- The entries of the table at a path, none if there is no table. -/
def entriesAt (item : Item) (path : List Text) : Entries :=
  ((item.itemAt path).bind entries?).getD []

/-- `ensure_table_item`: what is not a table is replaced by an empty one. -/
def ensureTable (item : Item) : Entries :=
  item.entries?.getD []

/-- Changes the table at a path, which `ensure_table_path` makes if there is none. -/
def updateTable (item : Item) (update : Entries → Entries) : List Text → Item
  | [] => .table (update item.ensureTable)
  | key :: path =>
      let child := (Entries.get? key item.ensureTable).getD (.table [])
      .table (Entries.insert key (child.updateTable update path) item.ensureTable)

/-- The entries of a table of either kind are replaced. -/
def withEntries (item : Item) (entries : Entries) : Item :=
  match item with
  | .inlineTable _ => .inlineTable entries
  | .table _ => .table entries
  | other => other

/-- Changes the table at a path if there is one. -/
def modifyTable (item : Item) (update : Entries → Entries) : List Text → Item
  | [] => item.withEntries (update item.ensureTable)
  | key :: path =>
      match Entries.get? key item.ensureTable with
      | some child =>
          item.withEntries (Entries.insert key (child.modifyTable update path) item.ensureTable)
      | none => item

end Item

namespace Entries

variable {key : Text}

theorem get?_eq_none {entries : Entries} :
    get? key entries = none ↔ key ∉ entries.map Prod.fst := by
  unfold get?
  rw [Option.map_eq_none_iff, List.find?_eq_none, List.mem_map, not_exists]
  refine forall_congr' fun entry ↦ ?_
  rw [decide_eq_true_eq, not_and]

theorem get?_insert (key other : Text) (item : Item) (entries : Entries) :
    get? other (insert key item entries) = if other = key then some item else get? other entries := by
  unfold insert
  split
  · rename_i hmem
    unfold get?
    by_cases hother : other = key
    · subst hother
      rw [if_pos rfl]
      induction entries with
      | nil => cases hmem
      | cons entry rest ih =>
        by_cases hhead : entry.1 = other
        · simp [hhead]
        · rw [List.map_cons, if_neg hhead, List.find?_cons_of_neg (by simpa using hhead)]
          exact ih ((List.mem_cons.mp hmem).resolve_left (Ne.symm hhead))
    · rw [if_neg hother]
      clear hmem
      induction entries with
      | nil => rfl
      | cons entry rest ih =>
        rw [List.map_cons]
        by_cases hhead : entry.1 = other
        · rw [if_neg fun heq ↦ hother (hhead.symm.trans heq),
            List.find?_cons_of_pos (by simpa using hhead), List.find?_cons_of_pos (by simpa using hhead)]
        · rw [List.find?_cons_of_neg, List.find?_cons_of_neg (by simpa using hhead)]
          · exact ih
          · split
            · simpa using Ne.symm hother
            · simpa using hhead
  · rename_i hmem
    unfold get?
    rw [List.find?_append]
    by_cases hother : other = key
    · subst hother
      have hnone := get?_eq_none.mpr hmem
      rw [get?, Option.map_eq_none_iff] at hnone
      rw [hnone]
      simp
    · simp [hother, Ne.symm hother]

theorem get?_insert_self (key : Text) (item : Item) (entries : Entries) :
    get? key (insert key item entries) = some item := by
  rw [get?_insert, if_pos rfl]

theorem get?_insert_ne {other : Text} (h : other ≠ key) (item : Item) (entries : Entries) :
    get? other (insert key item entries) = get? other entries := by
  rw [get?_insert, if_neg h]

theorem mem_insert {item : Item} {entries : Entries} {entry : Text × Item} :
    entry ∈ insert key item entries ↔ entry = (key, item) ∨ entry ∈ entries ∧ entry.1 ≠ key := by
  unfold insert
  split
  · rename_i hmem
    rw [List.mem_map]
    constructor
    · rintro ⟨other, hother, rfl⟩
      split
      · exact Or.inl rfl
      · rename_i hkey
        exact Or.inr ⟨hother, hkey⟩
    · rintro (rfl | ⟨hentry, hkey⟩)
      · obtain ⟨other, hother, hkey⟩ := List.mem_map.mp hmem
        exact ⟨other, hother, if_pos hkey⟩
      · exact ⟨entry, hentry, if_neg hkey⟩
  · rename_i hmem
    rw [List.mem_append, List.mem_singleton, or_comm]
    refine or_congr_right (iff_self_and.mpr fun hentry hkey ↦ hmem ?_)
    exact List.mem_map.mpr ⟨entry, hentry, hkey⟩

end Entries

namespace Item

theorem itemAt_nil (item : Item) : item.itemAt [] = some item := rfl

variable {item : Item} {key : Text}

theorem itemAt_cons {entries : Entries} (h : item.entries? = some entries) (key : Text)
    (path : List Text) : item.itemAt (key :: path) =
      (Entries.get? key entries).bind fun child ↦ child.itemAt path := by
  rw [itemAt, h]
  rfl

theorem itemAt_cons_of_none (h : item.entries? = none) (key : Text) (path : List Text) :
    item.itemAt (key :: path) = none := by
  rw [itemAt, h]
  rfl

/-- Below an item that is not a table there is nothing, as below an empty one. -/
theorem itemAt_ensureTable (item : Item) (key : Text) (path : List Text) :
    item.itemAt (key :: path) =
      (Entries.get? key item.ensureTable).bind fun child ↦ child.itemAt path := by
  unfold ensureTable
  cases h : item.entries? with
  | none => exact itemAt_cons_of_none h key path
  | some entries => exact itemAt_cons h key path

theorem itemAt_append (item : Item) (path path' : List Text) :
    item.itemAt (path ++ path') = (item.itemAt path).bind fun child ↦ child.itemAt path' := by
  induction path generalizing item with
  | nil => rfl
  | cons key path ih =>
    rw [List.cons_append, itemAt_ensureTable, itemAt_ensureTable]
    cases Entries.get? key item.ensureTable with
    | none => rfl
    | some child => exact ih child

theorem entriesAt_empty (path : List Text) : (Item.table []).entriesAt path = [] := by
  cases path with
  | nil => rfl
  | cons key path =>
    unfold entriesAt
    rw [itemAt_ensureTable]
    rfl

theorem entriesAt_cons (item : Item) (key : Text) (path : List Text) :
    item.entriesAt (key :: path) =
      ((Entries.get? key item.ensureTable).getD (.table [])).entriesAt path := by
  unfold entriesAt
  rw [itemAt_ensureTable]
  cases h : Entries.get? key item.ensureTable with
  | none => exact (entriesAt_empty path).symm
  | some child => rfl

section

variable (item : Item) (update : Entries → Entries)

/-- What is at the path of a table that has been changed. -/
theorem itemAt_updateTable (path : List Text) :
    (item.updateTable update path).itemAt path = some (.table (update (item.entriesAt path))) := by
  induction path generalizing item with
  | nil => rfl
  | cons key path ih =>
    rw [updateTable, itemAt_cons rfl, Entries.get?_insert_self, Option.bind_some, ih, ← entriesAt_cons]

theorem entriesAt_updateTable (path : List Text) :
    (item.updateTable update path).entriesAt path = update (item.entriesAt path) := by
  rw [entriesAt, itemAt_updateTable]
  rfl

/-- What is under another key stays. -/
theorem itemAt_updateTable_ne {other : Text}
    (h : other ≠ key) (path path' : List Text) :
    (item.updateTable update (key :: path)).itemAt (other :: path') = item.itemAt (other :: path') := by
  rw [updateTable, itemAt_cons rfl, Entries.get?_insert_ne h, itemAt_ensureTable]

end

theorem entries?_withEntries {old : Entries} (h : item.entries? = some old) (entries : Entries) :
    (item.withEntries entries).entries? = some entries := by
  cases item <;> first | rfl | cases h

theorem entries?_eq_of_get? {child : Item} (h : Entries.get? key item.ensureTable = some child) :
    item.entries? = some item.ensureTable := by
  unfold ensureTable at h ⊢
  cases hentries : item.entries? with
  | none =>
    rw [hentries] at h
    cases h
  | some entries => rfl

theorem entriesAt_modifyTable (item : Item) {update : Entries → Entries} (hnil : update [] = [])
    (path : List Text) : (item.modifyTable update path).entriesAt path = update (item.entriesAt path) := by
  induction path generalizing item with
  | nil =>
    unfold modifyTable entriesAt ensureTable
    rw [itemAt_nil, itemAt_nil, Option.bind_some, Option.bind_some]
    cases h : item.entries? with
    | none => cases item <;> first | exact hnil.symm | cases h
    | some entries =>
      rw [entries?_withEntries h]
      rfl
  | cons key path ih =>
    rw [entriesAt_cons item]
    unfold modifyTable
    cases h : Entries.get? key item.ensureTable with
    | none =>
      rw [entriesAt_cons, h, Option.getD_none, entriesAt_empty, hnil]
    | some child =>
      dsimp only
      rw [entriesAt_cons, ensureTable, entries?_withEntries (entries?_eq_of_get? h), Option.getD_some,
        Entries.get?_insert_self, Option.getD_some, Option.getD_some, ih]

theorem itemAt_modifyTable_ne (item : Item) (update : Entries → Entries) {other : Text}
    (h : other ≠ key) (path path' : List Text) :
    (item.modifyTable update (key :: path)).itemAt (other :: path') = item.itemAt (other :: path') := by
  unfold modifyTable
  cases hchild : Entries.get? key item.ensureTable with
  | none => rfl
  | some child =>
    dsimp only
    rw [itemAt_cons (entries?_withEntries (entries?_eq_of_get? hchild) _), Entries.get?_insert_ne h,
      itemAt_ensureTable]

end Item

end Pon.Toml
