import Pon.Struct.Element

/-!
# Binary records

Values are packed into a zeroed buffer and unpacked from a record, item by item and element by element.
A format is laid out in slots of padding and of single fields. Packing fills the slots one behind the
other, and unpacking reads them back.
-/

namespace Pon.Struct

/-! ## Packing -/

/-- The buffer, the position in it and the number of arguments packed. -/
structure Packing where
  out : List UInt8
  pos : ℕ := 0
  arg : ℕ := 0

section Pack

variable (floats : FloatCodec) (little : Bool) (values : List Value)

def packField (item : Item) (length : ℕ) (packing : Packing) : Except Failure Packing := do
  let dest ← readAt packing.out packing.pos length
  match values[packing.arg]? with
  | none => .error .panicked
  | some value => do
    let bytes ← packElement floats dest value item little
    let out ← writeAt packing.out packing.pos bytes
    .ok { out, pos := packing.pos + length, arg := packing.arg + 1 }

def packFields (item : Item) : ℕ → Packing → Except Failure Packing
  | 0, packing => .ok packing
  | count + 1, packing => do
    let packing ← packField floats little values item item.size packing
    packFields item count packing

def packItem (packing : Packing) (item : Item) : Except Failure Packing :=
  let packing := { packing with pos := packing.pos + item.padBefore }
  match item.kind with
  | .pad => .ok { packing with pos := packing.pos + item.count }
  | .str | .pascal => packField floats little values item item.count packing
  | _ => packFields floats little values item item.count packing

end Pack

/-- No vector is longer than the largest signed word. -/
def packValues (floats : FloatCodec) (fmt : Format) (values : List Value) : Except Failure (List UInt8) :=
  if fmt.size < 2 ^ 63 then do
    let packing ← fmt.items.foldlM (packItem floats fmt.little values)
      { out := List.replicate fmt.size 0 }
    .ok packing.out
  else .error .panicked

def pack (floats : FloatCodec) (fmt : Format) (values : List Value) : Except Failure (List UInt8) :=
  if values.length ≠ fmt.argCount then
    raised ("pack expected " ++ toString fmt.argCount ++ " items for packing (got " ++
      toString values.length ++ ")")
  else packValues floats fmt values

/-! ## Unpacking -/

structure Unpacking where
  pos : ℕ := 0
  values : List Value := []

section Unpack

variable (floats : FloatCodec) (little : Bool) (data : List UInt8)

def unpackField (item : Item) (length : ℕ) (unpacking : Unpacking) : Except Failure Unpacking := do
  let src ← readAt data unpacking.pos length
  let value ← unpackElement floats src item little
  .ok { pos := unpacking.pos + length, values := unpacking.values ++ [value] }

def unpackFields (item : Item) : ℕ → Unpacking → Except Failure Unpacking
  | 0, unpacking => .ok unpacking
  | count + 1, unpacking => do
    let unpacking ← unpackField floats little data item item.size unpacking
    unpackFields item count unpacking

def unpackItem (unpacking : Unpacking) (item : Item) : Except Failure Unpacking :=
  let unpacking := { unpacking with pos := unpacking.pos + item.padBefore }
  match item.kind with
  | .pad => .ok { unpacking with pos := unpacking.pos + item.count }
  | .str | .pascal => unpackField floats little data item item.count unpacking
  | _ => unpackFields floats little data item item.count unpacking

end Unpack

def unpackRecord (floats : FloatCodec) (fmt : Format) (data : List UInt8) : Except Failure (List Value) := do
  let unpacking ← fmt.items.foldlM (unpackItem floats fmt.little data) {}
  .ok unpacking.values

def unpack (floats : FloatCodec) (fmt : Format) (buffer : List UInt8) : Except Failure (List Value) :=
  if buffer.length ≠ fmt.size then
    raised ("unpack requires a buffer of " ++ toString fmt.size ++ " bytes")
  else unpackRecord floats fmt buffer

/-! ## Slots -/

/-- A part of a record: padding, or one element of an item. -/
inductive Slot
  | padding (length : ℕ)
  | field (item : Item)

def Slot.length : Slot → ℕ
  | .padding length => length
  | .field item => item.width

def Item.slots (item : Item) : List Slot :=
  .padding item.padBefore ::
    match item.kind with
    | .pad => [.padding item.count]
    | .str | .pascal => [.field item]
    | _ => List.replicate item.count (.field item)

def slots (items : List Item) : List Slot := items.flatMap Item.slots

def total (slots : List Slot) : ℕ := (slots.map Slot.length).sum

/-- The items of the fields, one for each argument. -/
def fields : List Slot → List Item
  | [] => []
  | .padding _ :: slots => fields slots
  | .field item :: slots => item :: fields slots

/-- The bytes of the slots. -/
def encode (floats : FloatCodec) (little : Bool) : List Slot → List Value → Except Failure (List UInt8)
  | [], _ => .ok []
  | .padding length :: slots, values => do
    let rest ← encode floats little slots values
    .ok (zeros length ++ rest)
  | .field _ :: _, [] => .error .panicked
  | .field item :: slots, value :: values => do
    let bytes ← packElement floats (zeros item.width) value item little
    let rest ← encode floats little slots values
    .ok (bytes ++ rest)

/-- The values of the slots. -/
def decode (floats : FloatCodec) (little : Bool) : List Slot → List UInt8 → Except Failure (List Value)
  | [], _ => .ok []
  | .padding length :: slots, data => decode floats little slots (data.drop length)
  | .field item :: slots, data => do
    let value ← unpackElement floats (data.take item.width) item little
    let rest ← decode floats little slots (data.drop item.width)
    .ok (value :: rest)

theorem total_cons (slot : Slot) (slots : List Slot) : total (slot :: slots) = slot.length + total slots := rfl

variable {items : List Item} {floats : FloatCodec}

theorem total_slots : total (slots items) = (items.map Item.extent).sum := by
  induction items with
  | nil => rfl
  | cons item items ih =>
    have extent : total item.slots = item.extent := by
      obtain ⟨code, kind, count, size, padBefore⟩ := item
      cases kind with
      | pad | str | pascal => rfl
      | _ =>
        change padBefore + ((List.replicate count (Slot.field _)).map Slot.length).sum = _
        rw [List.map_replicate, List.sum_replicate_nat]
        rfl
    rw [slots, List.flatMap_cons, total, List.map_append, List.sum_append, List.map_cons, List.sum_cons,
      ← ih, ← extent]
    rfl

theorem fields_append (left right : List Slot) : fields (left ++ right) = fields left ++ fields right := by
  induction left with
  | nil => rfl
  | cons slot left ih =>
    cases slot with
    | padding length => exact ih
    | field item => exact congrArg (item :: ·) ih

theorem fields_replicate (count : ℕ) (item : Item) :
    fields (List.replicate count (.field item)) = List.replicate count item := by
  induction count with
  | zero => rfl
  | succ count ih => exact congrArg (item :: ·) ih

theorem length_fields_slots (items : List Item) :
    (fields (slots items)).length = (items.map Item.arguments).sum := by
  induction items with
  | nil => rfl
  | cons item items ih =>
    have arguments : (fields item.slots).length = item.arguments := by
      obtain ⟨code, kind, count, size, padBefore⟩ := item
      cases kind with
      | pad | str | pascal => rfl
      | _ =>
        change (fields (List.replicate count (Slot.field _))).length = count
        rw [fields_replicate, List.length_replicate]
    rw [slots, List.flatMap_cons, fields_append, List.length_append, List.map_cons, List.sum_cons, ← ih,
      arguments]
    rfl

/-! ## Packing slot by slot -/

section Run

variable (floats : FloatCodec) (little : Bool)

def packSlot (values : List Value) (packing : Packing) : Slot → Except Failure Packing
  | .padding length => .ok { packing with pos := packing.pos + length }
  | .field item => packField floats little values item item.width packing

def unpackSlot (data : List UInt8) (unpacking : Unpacking) : Slot → Except Failure Unpacking
  | .padding length => .ok { unpacking with pos := unpacking.pos + length }
  | .field item => unpackField floats little data item item.width unpacking

variable (values : List Value)

theorem packFields_eq {item : Item} (width : item.size = item.width) (count : ℕ)
    (packing : Packing) :
    packFields floats little values item count packing =
      (List.replicate count (.field item)).foldlM (packSlot floats little values) packing := by
  induction count generalizing packing with
  | zero => rfl
  | succ count ih =>
    rw [packFields, List.replicate_succ, List.foldlM_cons, packSlot, width]
    congr 1
    funext packing
    exact ih packing

theorem packItem_eq (packing : Packing) (item : Item) :
    packItem floats little values packing item =
      item.slots.foldlM (packSlot floats little values) packing := by
  obtain ⟨code, kind, count, size, padBefore⟩ := item
  cases kind with
  | pad => rfl
  | str | pascal => exact (bind_pure _).symm
  | _ => exact packFields_eq floats little values rfl count _

theorem foldlM_packItem (items : List Item) (packing : Packing) :
    items.foldlM (packItem floats little values) packing =
      (slots items).foldlM (packSlot floats little values) packing := by
  induction items generalizing packing with
  | nil => rfl
  | cons item items ih =>
    rw [List.foldlM_cons, slots, List.flatMap_cons, List.foldlM_append, packItem_eq]
    congr 1
    funext packing
    exact ih packing

variable (data : List UInt8)

theorem unpackFields_eq {item : Item} (width : item.size = item.width) (count : ℕ)
    (unpacking : Unpacking) :
    unpackFields floats little data item count unpacking =
      (List.replicate count (.field item)).foldlM (unpackSlot floats little data) unpacking := by
  induction count generalizing unpacking with
  | zero => rfl
  | succ count ih =>
    rw [unpackFields, List.replicate_succ, List.foldlM_cons, unpackSlot, width]
    congr 1
    funext unpacking
    exact ih unpacking

theorem unpackItem_eq (unpacking : Unpacking) (item : Item) :
    unpackItem floats little data unpacking item =
      item.slots.foldlM (unpackSlot floats little data) unpacking := by
  obtain ⟨code, kind, count, size, padBefore⟩ := item
  cases kind with
  | pad => rfl
  | str | pascal => exact (bind_pure _).symm
  | _ => exact unpackFields_eq floats little data rfl count _

theorem foldlM_unpackItem (items : List Item) (unpacking : Unpacking) :
    items.foldlM (unpackItem floats little data) unpacking =
      (slots items).foldlM (unpackSlot floats little data) unpacking := by
  induction items generalizing unpacking with
  | nil => rfl
  | cons item items ih =>
    rw [List.foldlM_cons, slots, List.flatMap_cons, List.foldlM_append, unpackItem_eq]
    congr 1
    funext unpacking
    exact ih unpacking

variable {floats little}

/-- The slots have elements of the sizes of their kinds. -/
def Slot.Sized : Slot → Prop
  | .padding _ => True
  | .field item => item.kind.Sized item.size

/-- Filling the slots writes their encoding behind what is written. -/
theorem foldlM_packSlot {slots : List Slot} (sized : ∀ slot ∈ slots, slot.Sized) {values : List Value}
    {written : List UInt8} {arg : ℕ} :
    slots.foldlM (packSlot floats little values)
        { out := written ++ zeros (total slots), pos := written.length, arg := arg } =
      (encode floats little slots (values.drop arg)).map fun bytes ↦
        { out := written ++ bytes, pos := written.length + total slots,
          arg := arg + (fields slots).length } := by
  induction slots generalizing written arg with
  | nil => rfl
  | cons slot slots ih =>
    have rest (written : List UInt8) (arg : ℕ) :=
      @ih (fun other member ↦ sized other (List.mem_cons_of_mem slot member)) written arg
    cases slot with
    | padding length =>
      rw [List.foldlM_cons, packSlot, encode, total_cons]
      have split : written ++ zeros (length + total slots) = written ++ zeros length ++ zeros (total slots) := by
        rw [List.append_assoc, zeros, zeros, zeros, List.replicate_append_replicate]
      have later := rest (written ++ zeros length) arg
      rw [List.length_append, length_zeros, ← split] at later
      refine later.trans ?_
      cases encode floats little slots (values.drop arg) with
      | error failure => rfl
      | ok bytes =>
        refine congrArg Except.ok ?_
        dsimp only
        rw [List.append_assoc, Nat.add_assoc]
        rfl
    | field item =>
      have split : written ++ zeros (total (.field item :: slots)) =
          written ++ zeros item.width ++ zeros (total slots) := by
        rw [List.append_assoc, zeros, zeros, zeros, List.replicate_append_replicate]
        rfl
      have read : readAt (written ++ zeros item.width ++ zeros (total slots)) written.length item.width =
          .ok (zeros item.width) := readAt_split written _ _ rfl (length_zeros item.width)
      rw [List.foldlM_cons, packSlot, packField, split, read]
      dsimp only [bind, Except.bind]
      cases found : values[arg]? with
      | none =>
        rw [List.drop_of_length_le (List.getElem?_eq_none_iff.mp found)]
        rfl
      | some value =>
        obtain ⟨bound, isValue⟩ := List.getElem?_eq_some_iff.mp found
        rw [List.drop_eq_getElem_cons bound, isValue, encode]
        dsimp only [bind, Except.bind]
        obtain ⟨bytes, packed, length⟩ | ⟨message, refused⟩ :=
          fills_packElement (sized _ List.mem_cons_self) (length_zeros item.width) floats value little
        · have write : writeAt (written ++ zeros item.width ++ zeros (total slots)) written.length bytes =
              .ok (written ++ bytes ++ zeros (total slots)) :=
            writeAt_split written _ _ rfl (length.trans (length_zeros item.width).symm)
          have later := rest (written ++ bytes) (arg + 1)
          rw [List.length_append, length] at later
          rw [packed]
          dsimp only
          rw [write]
          refine later.trans ?_
          cases encode floats little slots (values.drop (arg + 1)) with
          | error failure => rfl
          | ok more =>
            refine congrArg Except.ok ?_
            dsimp only
            rw [List.append_assoc, Nat.add_assoc, Nat.add_assoc, Nat.add_comm 1]
            rfl
        · rw [refused]
          rfl

/-- Reading the slots gives their decoding behind what is read. -/
theorem foldlM_unpackSlot {slots : List Slot} (sized : ∀ slot ∈ slots, slot.Sized)
    {done rest : List UInt8} (length : rest.length = total slots) {values : List Value} :
    slots.foldlM (unpackSlot floats little (done ++ rest)) { pos := done.length, values := values } =
      (decode floats little slots rest).map fun more ↦
        { pos := done.length + total slots, values := values ++ more } := by
  induction slots generalizing done rest values with
  | nil =>
    refine congrArg Except.ok ?_
    dsimp only
    rw [List.append_nil]
    rfl
  | cons slot slots ih =>
    have later := fun other member ↦ sized other (List.mem_cons_of_mem slot member)
    have fits : slot.length ≤ rest.length := by
      rw [length, total_cons]
      exact Nat.le_add_right _ _
    obtain ⟨front, back, rfl, isFront⟩ : ∃ front back, rest = front ++ back ∧ front.length = slot.length :=
      ⟨rest.take slot.length, rest.drop slot.length, (List.take_append_drop _ _).symm,
        List.length_take_of_le fits⟩
    rw [List.length_append, total_cons, isFront, Nat.add_left_cancel_iff] at length
    have next (values : List Value) := @ih later (done ++ front) back length values
    simp only [List.append_assoc, List.length_append, isFront] at next
    cases slot with
    | padding length =>
      change front.length = length at isFront
      rw [List.foldlM_cons, unpackSlot, decode, total_cons, List.drop_left' isFront]
      refine (next values).trans ?_
      rw [Nat.add_assoc]
    | field item =>
      change front.length = item.width at isFront
      have read : readAt (done ++ (front ++ back)) done.length item.width = .ok front := by
        rw [← List.append_assoc]
        exact readAt_split done front back rfl isFront
      rw [List.foldlM_cons, unpackSlot, unpackField, read, decode, List.take_left' isFront,
        List.drop_left' isFront]
      dsimp only [bind, Except.bind]
      cases unpackElement floats front item little with
      | error failure => rfl
      | ok value =>
        refine (next (values ++ [value])).trans ?_
        cases decode floats little slots back with
        | error failure => rfl
        | ok more =>
          refine congrArg Except.ok ?_
          dsimp only
          rw [List.append_assoc, Nat.add_assoc]
          rfl

end Run

/-! ## Records -/

theorem sized_slots (sized : ∀ item ∈ items, item.kind.Sized item.size) :
    ∀ slot ∈ slots items, slot.Sized := by
  intro slot member
  obtain ⟨item, inside, member⟩ := List.mem_flatMap.mp member
  have valid := sized item inside
  obtain ⟨code, kind, count, size, padBefore⟩ := item
  obtain rfl | member := List.mem_cons.mp member
  · trivial
  · cases kind with
    | pad =>
      obtain rfl := List.mem_singleton.mp member
      trivial
    | str | pascal =>
      obtain rfl := List.mem_singleton.mp member
      exact valid
    | _ =>
      obtain rfl := List.eq_of_mem_replicate member
      exact valid

/-- A buffer of machine size is filled with the encoding of the slots. -/
theorem packValues_eq {fmt : Format} (wellFormed : WellFormed fmt.items fmt.size fmt.argCount)
    (values : List Value) (small : fmt.size < 2 ^ 63) :
    packValues floats fmt values = encode floats fmt.little (slots fmt.items) values := by
  have size : fmt.size = total (slots fmt.items) := wellFormed.size_eq.trans total_slots.symm
  have run := @foldlM_packSlot floats fmt.little _ (sized_slots wellFormed.sized) values [] 0
  rw [packValues, if_pos small, foldlM_packItem, size]
  refine (congrArg (fun result : Except Failure Packing ↦ result >>= fun packing ↦ .ok packing.out)
    run).trans ?_
  rw [List.drop_zero]
  cases encode floats fmt.little (slots fmt.items) values with
  | error failure => rfl
  | ok bytes => rfl

theorem unpackRecord_eq {fmt : Format} (wellFormed : WellFormed fmt.items fmt.size fmt.argCount)
    {data : List UInt8} (length : data.length = fmt.size) :
    unpackRecord floats fmt data = decode floats fmt.little (slots fmt.items) data := by
  have size : fmt.size = total (slots fmt.items) := wellFormed.size_eq.trans total_slots.symm
  have run := @foldlM_unpackSlot floats fmt.little _ (sized_slots wellFormed.sized) [] data
    (length.trans size) []
  rw [unpackRecord, foldlM_unpackItem]
  refine (congrArg (fun result : Except Failure Unpacking ↦ result >>= fun unpacking ↦
    .ok unpacking.values) run).trans ?_
  cases decode floats fmt.little (slots fmt.items) data with
  | error failure => rfl
  | ok values => rfl

/-! ## Round trip of a record -/

/-- An argument for each field. -/
def Accepts (items : List Item) (values : List Value) : Prop := List.Forall₂ Item.Accepts items values

theorem round_trip_slots {little : Bool} {slots : List Slot} (sized : ∀ slot ∈ slots, slot.Sized)
    {values : List Value} (accepts : Accepts (fields slots) values) :
    ∃ bytes, encode floats little slots values = .ok bytes ∧ bytes.length = total slots ∧
      decode floats little slots bytes = .ok (List.zipWith Item.canonical (fields slots) values) := by
  induction slots generalizing values with
  | nil => exact ⟨[], rfl, rfl, rfl⟩
  | cons slot slots ih =>
    have later := fun other member ↦ sized other (List.mem_cons_of_mem slot member)
    cases slot with
    | padding length =>
      obtain ⟨bytes, encoded, isTotal, decoded⟩ := ih later accepts
      refine ⟨zeros length ++ bytes, ?_, ?_, ?_⟩
      · rw [encode, encoded]
        rfl
      · rw [List.length_append, length_zeros, isTotal]
        rfl
      · rw [decode, List.drop_left' (length_zeros length), decoded]
        rfl
    | field item =>
      cases values with
      | nil => exact nomatch accepts
      | cons value values =>
        obtain ⟨first, rest⟩ := List.forall₂_cons.mp accepts
        obtain ⟨bytes, encoded, isTotal, decoded⟩ := ih later rest
        obtain ⟨element, packed, length, unpacked⟩ :=
          roundTrips_of_accepts (sized _ List.mem_cons_self) first
        refine ⟨element ++ bytes, ?_, ?_, ?_⟩
        · rw [encode, packed, encoded]
          rfl
        · rw [List.length_append, length, isTotal]
          rfl
        · rw [decode, List.take_left' length, List.drop_left' length, unpacked, decoded]
          rfl

/-- The bytes of the fields, and zeros for the padding. -/
def clearPadding : List Slot → List UInt8 → List UInt8
  | [], _ => []
  | .padding length :: slots, data => zeros length ++ clearPadding slots (data.drop length)
  | .field item :: slots, data => data.take item.width ++ clearPadding slots (data.drop item.width)

theorem restores_slots {little : Bool} {slots : List Slot} (sized : ∀ slot ∈ slots, slot.Sized)
    (plain : ∀ item ∈ fields slots, item.Plain ∧ item.kind ≠ .pad) {data : List UInt8}
    (length : data.length = total slots) :
    ∃ values, decode floats little slots data = .ok values ∧ values.length = (fields slots).length ∧
      encode floats little slots values = .ok (clearPadding slots data) := by
  induction slots generalizing data with
  | nil => exact ⟨[], rfl, rfl, rfl⟩
  | cons slot slots ih =>
    have later := fun other member ↦ sized other (List.mem_cons_of_mem slot member)
    have rest : (data.drop slot.length).length = total slots := by
      rw [List.length_drop, length, total_cons, Nat.add_sub_cancel_left]
    cases slot with
    | padding length =>
      obtain ⟨values, decoded, count, encoded⟩ := ih later plain rest
      refine ⟨values, decoded, count, ?_⟩
      rw [encode, encoded]
      rfl
    | field item =>
      obtain ⟨first, plain⟩ := List.forall_mem_cons.mp plain
      obtain ⟨values, decoded, count, encoded⟩ := ih later plain rest
      have width : (data.take item.width).length = item.width := by
        refine List.length_take_of_le ?_
        rw [length, total_cons]
        exact Nat.le_add_right _ _
      obtain ⟨value, unpacked, packed⟩ := @restores_element item floats little
        (sized _ List.mem_cons_self) first.1 first.2 _ width
      change decode floats little slots (data.drop item.width) = _ at decoded
      refine ⟨value :: values, ?_, congrArg (· + 1) count, ?_⟩
      · rw [decode, unpacked, decoded]
        rfl
      · rw [encode, packed, encoded]
        rfl

theorem plain_fields_slots (plain : ∀ item ∈ items, item.Plain) :
    ∀ item ∈ fields (slots items), item.Plain ∧ item.kind ≠ .pad := by
  induction items with
  | nil => exact List.forall_mem_nil _
  | cons item items ih =>
    obtain ⟨first, plain⟩ := List.forall_mem_cons.mp plain
    rw [slots, List.flatMap_cons, fields_append, List.forall_mem_append]
    refine ⟨?_, ih plain⟩
    obtain ⟨code, kind, count, size, padBefore⟩ := item
    intro other member
    cases kind with
    | pad => exact nomatch member
    | str | pascal =>
      obtain rfl := List.mem_singleton.mp member
      exact ⟨first, nofun⟩
    | _ =>
      change other ∈ fields (List.replicate count _) at member
      rw [fields_replicate] at member
      obtain rfl := List.eq_of_mem_replicate member
      exact ⟨first, nofun⟩

/-- A vector of bytes is no longer than the largest signed word. -/
structure Buffer where
  bytes : List UInt8
  short : bytes.length < 2 ^ 63

/-- The values are packed into the size of the format and unpacked in canonical form. -/
def PackRoundTrips (floats : FloatCodec) (fmt : Format) (values : List Value) : Prop :=
  ∃ bytes, pack floats fmt values = .ok bytes ∧ bytes.length = fmt.size ∧
    unpack floats fmt bytes = .ok (List.zipWith Item.canonical (fields (slots fmt.items)) values)

/-- What is unpacked is packed again, with the padding cleared. -/
def Restores (floats : FloatCodec) (fmt : Format) (data : List UInt8) : Prop :=
  ∃ values, unpack floats fmt data = .ok values ∧
    pack floats fmt values = .ok (clearPadding (slots fmt.items) data)

/-- A format is packed into its size and unpacked to the same values, in canonical form, exactly where its
size is a signed word. Packing what a format of plain items unpacks from a buffer gives the buffer with
its padding cleared. -/
theorem struct_codec {platform : Platform} {text : List Char} {fmt : Format}
    (parsed : parseFormat platform text = .ok fmt) (floats : FloatCodec) :
    (∀ values, Accepts (fields (slots fmt.items)) values →
      (PackRoundTrips floats fmt values ↔ fmt.size < 2 ^ 63)) ∧
      ((∀ item ∈ fmt.items, item.Plain) → ∀ buffer : Buffer, buffer.bytes.length = fmt.size →
        Restores floats fmt buffer.bytes) := by
  have wellFormed := parseFormat_wellFormed parsed
  have sized := sized_slots wellFormed.sized
  have size : fmt.size = total (slots fmt.items) := wellFormed.size_eq.trans total_slots.symm
  have count : fmt.argCount = (fields (slots fmt.items)).length :=
    wellFormed.argCount_eq.trans (length_fields_slots fmt.items).symm
  refine ⟨fun values accepts ↦ ⟨fun roundTrip ↦ ?_, fun small ↦ ?_⟩, fun plain buffer length ↦ ?_⟩
  · obtain ⟨bytes, packed, -⟩ := roundTrip
    by_contra large
    rw [pack, if_neg (not_not_intro (accepts.length_eq.symm.trans count.symm)), packValues,
      if_neg large] at packed
    exact nomatch packed
  · obtain ⟨bytes, encoded, isTotal, decoded⟩ := @round_trip_slots floats fmt.little _ sized _ accepts
    have length : bytes.length = fmt.size := isTotal.trans size.symm
    refine ⟨bytes, ?_, length, ?_⟩
    · rw [pack, if_neg (not_not_intro (accepts.length_eq.symm.trans count.symm)),
        packValues_eq wellFormed values small, encoded]
    · rw [unpack, if_neg (not_not_intro length), unpackRecord_eq wellFormed length, decoded]
  · have small : fmt.size < 2 ^ 63 := length ▸ buffer.short
    obtain ⟨values, decoded, isCount, encoded⟩ := @restores_slots floats fmt.little _ sized
      (plain_fields_slots plain) _ (length.trans size)
    refine ⟨values, ?_, ?_⟩
    · rw [unpack, if_neg (not_not_intro length), unpackRecord_eq wellFormed length, decoded]
    · rw [pack, if_neg (not_not_intro (isCount.trans count.symm)),
        packValues_eq wellFormed values small, encoded]

/-- A codec that refuses every float. -/
def noFloats : FloatCodec where
  toBits _ _ := .error "required argument is not a float"
  toParts _ _ := .error "required argument is not a complex"
  ofBits _ _ := .none
  ofParts _ _ := .none

/-- The layout of `<hx3s`. -/
def mixedFormat : Format where
  little := true
  items := [⟨'h', .signed, 1, 2, 0⟩, ⟨'x', .pad, 1, 1, 0⟩, ⟨'s', .str, 3, 1, 0⟩]
  size := 6
  argCount := 2

theorem struct_codec_mixed :
    (∀ values, Accepts (fields (slots mixedFormat.items)) values →
      (PackRoundTrips noFloats mixedFormat values ↔ mixedFormat.size < 2 ^ 63)) ∧
      ((∀ item ∈ mixedFormat.items, item.Plain) →
        ∀ buffer : Buffer, buffer.bytes.length = mixedFormat.size →
          Restores noFloats mixedFormat buffer.bytes) :=
  @struct_codec lp64 "<hx3s".toList mixedFormat (by decide +kernel) noFloats

/-- A format whose size is no signed word is accepted, takes no arguments, and is not packed. -/
theorem large_format_panics :
    parseFormat lp64 "9223372036854775808x".toList =
        .ok ⟨true, [⟨'x', .pad, 2 ^ 63, 1, 0⟩], 2 ^ 63, 0⟩ ∧
      Accepts (fields (slots [⟨'x', .pad, 2 ^ 63, 1, 0⟩])) [] ∧
      pack noFloats ⟨true, [⟨'x', .pad, 2 ^ 63, 1, 0⟩], 2 ^ 63, 0⟩ [] = .error .panicked := by
  exact ⟨by decide +kernel, .nil, by decide +kernel⟩

end Pon.Struct
