import Pon.Struct.Record

/-!
# Records inside of buffers

A record is packed into a buffer at an offset, unpacked from one at an offset, and a buffer of records is
unpacked one by one. The bounds are tested in signed words, and the size of a format is an unsigned one.
The two agree where the size is a signed word.
-/

namespace Pon.Struct

/-! ## Operations -/

/-- A cast of an unsigned word to a signed one. -/
def asIsize (size : ℕ) : ℤ := if size < 2 ^ 63 then size else size - 2 ^ 64

/-- An offset from the start of the buffer. A negative one counts from its end. -/
def normalizeOffset (offset length : ℤ) : ℤ := if offset < 0 then offset + length else offset

/-- `int_arg`. -/
def intArg (value : ℤ) : Except Failure ℤ :=
  if -2 ^ 63 ≤ value ∧ value < 2 ^ 63 then .ok value else raised "offset does not fit in an int"

def offsetMessage (offset length : ℤ) : String :=
  "offset " ++ toString offset ++ " out of range for " ++ toString length ++ "-byte buffer"

def tooSmallMessage (name verb : String) (needed : ℕ) (fmt : Format) (offset length : ℤ) : String :=
  name ++ " requires a buffer of at least " ++ toString needed ++ " bytes for " ++ verb ++ " " ++
    toString fmt.size ++ " bytes at offset " ++ toString offset ++ " (actual buffer size is " ++
      toString length ++ ")"

/-- The start of the record in the buffer. -/
def recordStart (name verb : String) (fmt : Format) (buffer : Buffer) (offset : ℤ) : Except Failure ℕ := do
  let offset ← intArg offset
  let length : ℤ := buffer.bytes.length
  let start := normalizeOffset offset length
  if start < 0 ∨ length < start then raised (offsetMessage offset length)
  else if length - start < asIsize fmt.size then do
    let needed ← usize (start.toNat + fmt.size)
    raised (tooSmallMessage name verb needed fmt start length)
  else .ok start.toNat

/-- The buffer after the truth tests of the elements, up to the first element that is refused. -/
def touchedFields (floats : FloatCodec) (little : Bool) : List Item → List Value → Window → Window
  | item :: items, value :: values, window =>
    let window := if item.kind = .bool then value.touch window else window
    match packElement floats (zeros item.width) value item little with
    | .ok _ => touchedFields floats little items values window
    | .error _ => window
  | _, _, window => window

/-- The buffer after the values are packed. A vector that is too long is refused before the first of them. -/
def touched (floats : FloatCodec) (fmt : Format) (buffer : Buffer) (values : List Value) : Window :=
  if fmt.size < 2 ^ 63 then
    touchedFields floats fmt.little (fields (slots fmt.items)) values ⟨buffer.bytes, false⟩
  else ⟨buffer.bytes, false⟩

/-- The end of a call with the buffer afterwards, a panic, or a write outside of the buffer. -/
inductive PackedInto
  | returned (contents : List UInt8)
  | raised (message : String) (contents : List UInt8)
  | panicked
  | stray
deriving DecidableEq

def PackedInto.failed (failure : Failure) (contents : List UInt8) : PackedInto :=
  match failure with
  | .raised message => .raised message contents
  | .panicked => .panicked

/-- The slice is taken of the buffer at the call, and it is written to after the truth tests. -/
def copyIntoSlice (buffer : Buffer) (window : Window) (start stop : ℕ) (bytes : List UInt8) : PackedInto :=
  if stop ≤ buffer.bytes.length then
    if window.moved then .stray
    else
      match writeAt window.bytes start bytes with
      | .ok contents => .returned contents
      | .error _ => .stray
  else .panicked

def packInto (floats : FloatCodec) (fmt : Format) (buffer : Buffer) (offset : ℤ) (values : List Value) :
    PackedInto :=
  if values.length ≠ fmt.argCount then
    .raised ("pack_into expected " ++ toString fmt.argCount ++ " items for packing (got " ++
      toString values.length ++ ")") buffer.bytes
  else
    match recordStart "pack_into" "packing" fmt buffer offset with
    | .error failure => .failed failure buffer.bytes
    | .ok start =>
      let window := touched floats fmt buffer values
      match packValues floats fmt values with
      | .error failure => .failed failure window.bytes
      | .ok bytes =>
        match usize (start + fmt.size) with
        | .error failure => .failed failure window.bytes
        | .ok stop => copyIntoSlice buffer window start stop bytes

def unpackFrom (floats : FloatCodec) (fmt : Format) (buffer : Buffer) (offset : ℤ) :
    Except Failure (List Value) := do
  let start ← recordStart "unpack_from" "unpacking" fmt buffer offset
  let _ ← usize (start + fmt.size)
  let data ← readAt buffer.bytes start fmt.size
  unpackRecord floats fmt data

structure UnpackIterator where
  data : List UInt8
  pos : ℕ

def iterUnpack (fmt : Format) (buffer : Buffer) : Except Failure UnpackIterator :=
  if fmt.size = 0 then raised "cannot iterate with size 0"
  else if buffer.bytes.length % fmt.size ≠ 0 then
    raised ("iterable buffer size (" ++ toString buffer.bytes.length ++
      ") is not a multiple of the struct size (" ++ toString fmt.size ++ ")")
  else .ok { data := buffer.bytes, pos := 0 }

/-- The next record, or none at the end. -/
def UnpackIterator.next (floats : FloatCodec) (fmt : Format) (iterator : UnpackIterator) :
    Except Failure (Option (List Value) × UnpackIterator) :=
  if iterator.data.length ≤ iterator.pos then .ok (none, iterator)
  else do
    let stop ← usize (iterator.pos + fmt.size)
    let data ← readAt iterator.data iterator.pos fmt.size
    let record ← unpackRecord floats fmt data
    .ok (some record, { iterator with pos := stop })

/-! ## Safety -/

/-- A record of the format in the bytes of a buffer, at a position. -/
structure Located (fmt : Format) (bytes : List UInt8) (start : ℤ) (front record back : List UInt8) : Prop where
  split : bytes = front ++ record ++ back
  start : (front.length : ℤ) = start
  size : record.length = fmt.size

/-- An error leaves the buffer as it was, and a success writes the bytes of a record at the offset of what
the truth tests left. -/
def PackIntoSafe (floats : FloatCodec) (fmt : Format) (buffer : Buffer) (offset : ℤ)
    (values : List Value) : Prop :=
  match packInto floats fmt buffer offset values with
  | .returned contents =>
    ∃ front record back bytes,
      Located fmt (touched floats fmt buffer values).bytes (normalizeOffset offset buffer.bytes.length)
        front record back ∧
      bytes.length = fmt.size ∧ contents = front ++ bytes ++ back
  | .raised _ contents => contents = buffer.bytes
  | .panicked | .stray => False

/-- An error is raised, or the values are those of a record at the offset. -/
def UnpackFromSafe (floats : FloatCodec) (fmt : Format) (buffer : Buffer) (offset : ℤ) : Prop :=
  match unpackFrom floats fmt buffer offset with
  | .ok values =>
    ∃ front record back,
      Located fmt buffer.bytes (normalizeOffset offset buffer.bytes.length) front record back ∧
      unpackRecord floats fmt record = .ok values
  | .error (.raised _) => True
  | .error .panicked => False

/-- A step of an iterator. -/
def Iterates (floats : FloatCodec) (fmt : Format) (before after : UnpackIterator) : Prop :=
  ∃ record, before.next floats fmt = .ok (record, after)

/-- The next record is that behind the position, and there is none at the end. -/
def NextSafe (floats : FloatCodec) (fmt : Format) (iterator : UnpackIterator) : Prop :=
  match iterator.next floats fmt with
  | .ok (some values, after) =>
    ∃ front record back, iterator.data = front ++ record ++ back ∧ front.length = iterator.pos ∧
      record.length = fmt.size ∧ unpackRecord floats fmt record = .ok values ∧
      after.pos = iterator.pos + fmt.size
  | .ok (none, _) => iterator.pos = iterator.data.length
  | .error (.raised _) => False
  | .error .panicked => False

/-- The offset is a signed word and in the buffer. -/
def OffsetInside (buffer : Buffer) (offset : ℤ) : Prop :=
  (-2 ^ 63 ≤ offset ∧ offset < 2 ^ 63) ∧ 0 ≤ normalizeOffset offset buffer.bytes.length ∧
    normalizeOffset offset buffer.bytes.length ≤ buffer.bytes.length

/-- Every value is accepted by its item. -/
def Packable (floats : FloatCodec) (little : Bool) (items : List Item) (values : List Value) : Prop :=
  List.Forall₂ (fun item value ↦ ∃ bytes, packElement floats (zeros item.width) value item little = .ok bytes)
    items values

/-- A record that is in the buffer at the call is still there after the truth tests. Where a later value is
refused, they have left the bytes as they were. -/
structure Undisturbed (floats : FloatCodec) (fmt : Format) (buffer : Buffer) (offset : ℤ)
    (values : List Value) : Prop where
  still : Packable floats fmt.little (fields (slots fmt.items)) values →
    (touched floats fmt buffer values).moved = false ∧
      (normalizeOffset offset buffer.bytes.length).toNat + fmt.size ≤
        (touched floats fmt buffer values).bytes.length
  same : ¬Packable floats fmt.little (fields (slots fmt.items)) values →
    (touched floats fmt buffer values).bytes = buffer.bytes

/-- The bounds test of the record passes. -/
def RecordFits (fmt : Format) (buffer : Buffer) (offset : ℤ) : Prop :=
  (normalizeOffset offset buffer.bytes.length).toNat + fmt.size ≤ buffer.bytes.length

/-! ## Slices of the right size -/

theorem unpackElement_ok {item : Item} (sized : item.kind.Sized item.size) {src : List UInt8}
    (length : src.length = item.width) (floats : FloatCodec) (little : Bool) :
    ∃ value, unpackElement floats src item little = .ok value := by
  obtain ⟨code, kind, count, size, padBefore⟩ := item
  cases kind with
  | pad | signed | unsigned | str | float => exact ⟨_, rfl⟩
  | bool | char =>
    obtain rfl : size = 1 := sized
    obtain ⟨byte, rfl⟩ := List.length_eq_one_iff.mp length
    exact ⟨_, rfl⟩
  | pascal =>
    change src.length = count at length
    unfold unpackElement
    dsimp only
    cases src with
    | nil => exact ⟨_, if_pos length.symm⟩
    | cons first rest =>
      rw [List.length_cons] at length
      have fits : 1 + min first.toNat (count - 1) ≤ (first :: rest).length := by
        rw [List.length_cons]
        omega
      rw [if_neg (by omega)]
      change ∃ value, (readAt (first :: rest) 1 (min first.toNat (count - 1)) >>= _) = _
      rw [readAt, if_pos fits]
      exact ⟨_, rfl⟩
  | complex =>
    change src.length = size at length
    change size = 8 ∨ size = 16 at sized
    unfold unpackElement
    dsimp only
    have half : (if size = 8 then 4 else 8) + (if size = 8 then 4 else 8) = size := by
      split_ifs <;> omega
    have first : 0 + (if size = 8 then 4 else 8) ≤ src.length := by omega
    have second : (if size = 8 then 4 else 8) + (if size = 8 then 4 else 8) ≤ src.length := by omega
    rw [readAt, if_pos first]
    dsimp only [bind, Except.bind]
    rw [readAt, if_pos second]
    exact ⟨_, rfl⟩

theorem decode_ok {slots : List Slot} (sized : ∀ slot ∈ slots, slot.Sized) {data : List UInt8}
    (length : data.length = total slots) (floats : FloatCodec) (little : Bool) :
    ∃ values, decode floats little slots data = .ok values := by
  induction slots generalizing data with
  | nil => exact ⟨[], rfl⟩
  | cons slot slots ih =>
    have later := fun other member ↦ sized other (List.mem_cons_of_mem slot member)
    have rest : (data.drop slot.length).length = total slots := by
      rw [List.length_drop, length, total_cons, Nat.add_sub_cancel_left]
    obtain ⟨values, decoded⟩ := ih later rest
    cases slot with
    | padding length => exact ⟨values, decoded⟩
    | field item =>
      have width : (data.take item.width).length = item.width := by
        refine List.length_take_of_le ?_
        rw [length, total_cons]
        exact Nat.le_add_right _ _
      obtain ⟨value, unpacked⟩ := unpackElement_ok (sized _ List.mem_cons_self) width floats little
      change decode floats little slots (data.drop item.width) = _ at decoded
      refine ⟨value :: values, ?_⟩
      rw [decode, unpacked, decoded]
      rfl

theorem fills_encode {slots : List Slot} (sized : ∀ slot ∈ slots, slot.Sized) {values : List Value}
    (count : values.length = (fields slots).length) (floats : FloatCodec) (little : Bool) :
    Fills (total slots) (encode floats little slots values) := by
  induction slots generalizing values with
  | nil => exact Or.inl ⟨[], rfl, rfl⟩
  | cons slot slots ih =>
    have later := fun other member ↦ sized other (List.mem_cons_of_mem slot member)
    cases slot with
    | padding length =>
      obtain ⟨bytes, encoded, isTotal⟩ | ⟨message, refused⟩ := ih later count
      · refine Or.inl ⟨zeros length ++ bytes, ?_, ?_⟩
        · rw [encode, encoded]
          rfl
        · rw [List.length_append, length_zeros, isTotal]
          rfl
      · refine Or.inr ⟨message, ?_⟩
        rw [encode, refused]
        rfl
    | field item =>
      cases values with
      | nil => cases count
      | cons value values =>
        obtain ⟨element, packed, length⟩ | ⟨message, refused⟩ :=
          fills_packElement (sized _ List.mem_cons_self) (length_zeros item.width) floats value little
        · obtain ⟨bytes, encoded, isTotal⟩ | ⟨message, refused⟩ := ih later (Nat.succ.inj count)
          · refine Or.inl ⟨element ++ bytes, ?_, ?_⟩
            · rw [encode, packed, encoded]
              rfl
            · rw [List.length_append, length, isTotal]
              rfl
          · refine Or.inr ⟨message, ?_⟩
            rw [encode, packed, refused]
            rfl
        · refine Or.inr ⟨message, ?_⟩
          rw [encode, refused]
          rfl

/-- The slots are encoded exactly if every field accepts its value. -/
theorem encode_ok_iff {slots : List Slot} {values : List Value}
    (count : values.length = (fields slots).length) (floats : FloatCodec) (little : Bool) :
    (∃ bytes, encode floats little slots values = .ok bytes) ↔
      Packable floats little (fields slots) values := by
  induction slots generalizing values with
  | nil =>
    obtain rfl := List.length_eq_zero_iff.mp count
    exact iff_of_true ⟨[], rfl⟩ .nil
  | cons slot slots ih =>
    cases slot with
    | padding length =>
      rw [fields, ← ih count, encode]
      cases encode floats little slots values with
      | error failure => exact iff_of_false (by simp [bind, Except.bind]) (by simp)
      | ok bytes => exact iff_of_true ⟨_, rfl⟩ ⟨_, rfl⟩
    | field item =>
      cases values with
      | nil => cases count
      | cons value values =>
        rw [Packable, fields, List.forall₂_cons, ← Packable, ← ih (Nat.succ.inj count), encode]
        cases packElement floats (zeros item.width) value item little with
        | error failure => exact iff_of_false (by simp [bind, Except.bind]) (by simp)
        | ok element =>
          cases encode floats little slots values with
          | error failure => exact iff_of_false (by simp [bind, Except.bind]) (by simp)
          | ok bytes => exact iff_of_true ⟨_, rfl⟩ ⟨⟨_, rfl⟩, _, rfl⟩

section Format

variable {fmt : Format} {values : List Value} {buffer : Buffer} {offset : ℤ} {floats : FloatCodec}
  {iterator : UnpackIterator}

theorem recordStart_of_outside (outside : ¬OffsetInside buffer offset) (name verb : String) (fmt : Format) :
    ∃ message, recordStart name verb fmt buffer offset = .error (.raised message) := by
  unfold recordStart
  by_cases word : -2 ^ 63 ≤ offset ∧ offset < 2 ^ 63
  · rw [intArg, if_pos word]
    refine ⟨_, if_pos ?_⟩
    by_contra inside
    exact outside ⟨word, not_lt.mp (not_or.mp inside).1, not_lt.mp (not_or.mp inside).2⟩
  · rw [intArg, if_neg word]
    exact ⟨_, rfl⟩

/-- A record inside of the bytes. -/
theorem located_of_fits {bytes : List UInt8} {start : ℤ} (nonneg : 0 ≤ start)
    (fits : start.toNat + fmt.size ≤ bytes.length) :
    ∃ front record back, Located fmt bytes start front record back ∧ front.length = start.toNat := by
  have front : (bytes.take start.toNat).length = start.toNat := List.length_take_of_le (by omega)
  have record : ((bytes.drop start.toNat).take fmt.size).length = fmt.size := by
    refine List.length_take_of_le ?_
    rw [List.length_drop]
    omega
  refine ⟨bytes.take start.toNat, (bytes.drop start.toNat).take fmt.size,
    (bytes.drop start.toNat).drop fmt.size, ⟨?_, ?_, record⟩, front⟩
  · rw [List.append_assoc, List.take_append_drop, List.take_append_drop]
  · rw [front, Int.toNat_of_nonneg nonneg]

theorem usize_record (fits : RecordFits fmt buffer offset) :
    usize ((normalizeOffset offset buffer.bytes.length).toNat + fmt.size) =
      .ok ((normalizeOffset offset buffer.bytes.length).toNat + fmt.size) := by
  have short := buffer.short
  unfold RecordFits at fits
  exact if_pos (by omega)

theorem packIntoSafe_of_raised {message : String}
    (refused : packInto floats fmt buffer offset values = .raised message buffer.bytes) :
    PackIntoSafe floats fmt buffer offset values := by
  unfold PackIntoSafe
  rw [refused]

theorem packIntoSafe_of_notStarted {message : String} (count : values.length = fmt.argCount)
    (refused : recordStart "pack_into" "packing" fmt buffer offset = .error (.raised message)) :
    PackIntoSafe floats fmt buffer offset values := by
  have raised : packInto floats fmt buffer offset values = .raised message buffer.bytes := by
    rw [packInto, if_neg (not_not_intro count), refused]
    rfl
  exact packIntoSafe_of_raised raised

/-- The data of an iterator is a buffer of records, and its position is the start of one or the end. -/
structure Aligned (fmt : Format) (iterator : UnpackIterator) : Prop where
  short : iterator.data.length < 2 ^ 63
  inside : iterator.pos ≤ iterator.data.length
  records : fmt.size ∣ iterator.data.length
  record : fmt.size ∣ iterator.pos

theorem aligned_iterUnpack (created : iterUnpack fmt buffer = .ok iterator) :
    Aligned fmt iterator := by
  unfold iterUnpack at created
  split_ifs at created with empty ragged
  · exact nomatch created
  · exact nomatch created
  obtain rfl := Except.ok.inj created
  exact ⟨buffer.short, Nat.zero_le _, Nat.dvd_of_mod_eq_zero (not_not.mp ragged), dvd_zero _⟩

variable (wellFormed : WellFormed fmt.items fmt.size fmt.argCount)

include wellFormed

theorem fills_packValues (count : values.length = fmt.argCount)
    (small : fmt.size < 2 ^ 63) (floats : FloatCodec) : Fills fmt.size (packValues floats fmt values) := by
  have size : fmt.size = total (slots fmt.items) := wellFormed.size_eq.trans total_slots.symm
  have fieldCount : fmt.argCount = (fields (slots fmt.items)).length :=
    wellFormed.argCount_eq.trans (length_fields_slots fmt.items).symm
  rw [packValues_eq wellFormed values small, size]
  exact fills_encode (sized_slots wellFormed.sized) (count.trans fieldCount) floats fmt.little

theorem packValues_ok_iff (count : values.length = fmt.argCount) (small : fmt.size < 2 ^ 63)
    (floats : FloatCodec) :
    (∃ bytes, packValues floats fmt values = .ok bytes) ↔
      Packable floats fmt.little (fields (slots fmt.items)) values := by
  have fieldCount : fmt.argCount = (fields (slots fmt.items)).length :=
    wellFormed.argCount_eq.trans (length_fields_slots fmt.items).symm
  rw [packValues_eq wellFormed values small]
  exact encode_ok_iff (count.trans fieldCount) floats fmt.little

theorem unpackRecord_ok {data : List UInt8} (length : data.length = fmt.size) (floats : FloatCodec) :
    ∃ values, unpackRecord floats fmt data = .ok values := by
  have size : fmt.size = total (slots fmt.items) := wellFormed.size_eq.trans total_slots.symm
  rw [unpackRecord_eq wellFormed length]
  exact decode_ok (sized_slots wellFormed.sized) (length.trans size) floats fmt.little

/-- The test of the bounds, in signed words. -/
theorem recordStart_of_inside (inside : OffsetInside buffer offset) (name verb : String) :
    (∃ message, recordStart name verb fmt buffer offset = .error (.raised message)) ∧
        fmt.size < 2 ^ 63 ∧ ¬RecordFits fmt buffer offset ∨
      recordStart name verb fmt buffer offset =
          .ok (normalizeOffset offset buffer.bytes.length).toNat ∧
        (RecordFits fmt buffer offset ∨ 2 ^ 63 ≤ fmt.size) := by
  unfold RecordFits
  obtain ⟨word, low, high⟩ := inside
  have short := buffer.short
  have bound := wellFormed.size_lt
  have shown : recordStart name verb fmt buffer offset =
      if (buffer.bytes.length : ℤ) - normalizeOffset offset buffer.bytes.length < asIsize fmt.size then do
        let needed ← usize ((normalizeOffset offset buffer.bytes.length).toNat + fmt.size)
        raised (tooSmallMessage name verb needed fmt (normalizeOffset offset buffer.bytes.length)
          buffer.bytes.length)
      else .ok (normalizeOffset offset buffer.bytes.length).toNat := by
    unfold recordStart
    rw [intArg, if_pos word]
    exact if_neg (not_or.mpr ⟨not_lt.mpr low, not_lt.mpr high⟩)
  rw [shown]
  by_cases small : fmt.size < 2 ^ 63
  · have cast : asIsize fmt.size = fmt.size := if_pos small
    rw [cast]
    by_cases beyond : (buffer.bytes.length : ℤ) - normalizeOffset offset buffer.bytes.length < fmt.size
    · rw [if_pos beyond, usize, if_pos (by omega)]
      exact Or.inl ⟨⟨_, rfl⟩, small, by omega⟩
    · rw [if_neg beyond]
      exact Or.inr ⟨rfl, Or.inl (by omega)⟩
  · have cast : asIsize fmt.size = fmt.size - 2 ^ 64 := if_neg small
    rw [cast, if_neg (by omega)]
    exact Or.inr ⟨rfl, Or.inr (not_lt.mp small)⟩

/-- A call whose record is in the buffer. -/
theorem packIntoSafe_iff_undisturbed (count : values.length = fmt.argCount) (small : fmt.size < 2 ^ 63)
    (inside : OffsetInside buffer offset) (fits : RecordFits fmt buffer offset)
    (started : recordStart "pack_into" "packing" fmt buffer offset =
      .ok (normalizeOffset offset buffer.bytes.length).toNat) :
    PackIntoSafe floats fmt buffer offset values ↔ Undisturbed floats fmt buffer offset values := by
  have packable := packValues_ok_iff wellFormed count small floats
  obtain ⟨bytes, packed, length⟩ | ⟨message, refused⟩ := fills_packValues wellFormed count small floats
  · have accepted := packable.mp ⟨bytes, packed⟩
    have call : packInto floats fmt buffer offset values =
        copyIntoSlice buffer (touched floats fmt buffer values)
          (normalizeOffset offset buffer.bytes.length).toNat
          ((normalizeOffset offset buffer.bytes.length).toNat + fmt.size) bytes := by
      rw [packInto, if_neg (not_not_intro count), started, packed]
      dsimp only
      rw [usize_record fits]
    have slice : (normalizeOffset offset buffer.bytes.length).toNat + fmt.size ≤ buffer.bytes.length := fits
    rw [PackIntoSafe, call, copyIntoSlice, if_pos slice]
    by_cases still : (touched floats fmt buffer values).moved = false ∧
        (normalizeOffset offset buffer.bytes.length).toNat + fmt.size ≤
          (touched floats fmt buffer values).bytes.length
    · refine iff_of_true ?_ ⟨fun _ ↦ still, fun refused ↦ absurd accepted refused⟩
      obtain ⟨front, record, back, located, start⟩ := located_of_fits inside.2.1 still.2
      have write : writeAt (touched floats fmt buffer values).bytes
          (normalizeOffset offset buffer.bytes.length).toNat bytes = .ok (front ++ bytes ++ back) := by
        rw [located.split]
        exact writeAt_split front record back start (length.trans located.size.symm)
      rw [still.1, write]
      exact ⟨front, record, back, bytes, located, length, rfl⟩
    · refine iff_of_false ?_ fun undisturbed ↦ still (undisturbed.still accepted)
      cases moved : (touched floats fmt buffer values).moved with
      | true => exact id
      | false =>
        have short := not_and.mp still moved
        rw [← length] at short
        rw [if_neg Bool.false_ne_true, writeAt, if_neg short]
        exact id
  · have rejected : ¬Packable floats fmt.little (fields (slots fmt.items)) values := by
      intro accepted
      obtain ⟨bytes, packed⟩ := packable.mpr accepted
      cases packed.symm.trans refused
    have call : packInto floats fmt buffer offset values =
        .raised message (touched floats fmt buffer values).bytes := by
      rw [packInto, if_neg (not_not_intro count), started, refused]
      rfl
    rw [PackIntoSafe, call]
    exact ⟨fun same ↦ ⟨fun accepted ↦ absurd accepted rejected, fun _ ↦ same⟩,
      fun undisturbed ↦ undisturbed.same rejected⟩

theorem packIntoSafe_iff (floats : FloatCodec) (values : List Value) :
    PackIntoSafe floats fmt buffer offset values ↔
      fmt.size < 2 ^ 63 ∧
          (RecordFits fmt buffer offset → Undisturbed floats fmt buffer offset values) ∨
        values.length ≠ fmt.argCount ∨ ¬OffsetInside buffer offset := by
  by_cases count : values.length = fmt.argCount
  · by_cases inside : OffsetInside buffer offset
    · obtain ⟨⟨message, refused⟩, small, beyond⟩ | ⟨started, fits⟩ :=
        recordStart_of_inside wellFormed inside "pack_into" "packing"
      · exact iff_of_true (packIntoSafe_of_notStarted count refused)
          (Or.inl ⟨small, fun fits ↦ absurd fits beyond⟩)
      · by_cases small : fmt.size < 2 ^ 63
        · have fits := fits.resolve_right (not_le.mpr small)
          rw [packIntoSafe_iff_undisturbed wellFormed count small inside fits started,
            or_iff_left (not_or.mpr ⟨not_not_intro count, not_not_intro inside⟩), and_iff_right small,
            forall_prop_of_true fits]
        · refine iff_of_false ?_ (not_or.mpr
            ⟨fun holds ↦ small holds.1, not_or.mpr ⟨not_not_intro count, not_not_intro inside⟩⟩)
          have panicked : packInto floats fmt buffer offset values = .panicked := by
            rw [packInto, if_neg (not_not_intro count), started, packValues, if_neg small]
            rfl
          rw [PackIntoSafe, panicked]
          exact id
    · obtain ⟨message, refused⟩ := recordStart_of_outside inside "pack_into" "packing" fmt
      exact iff_of_true (packIntoSafe_of_notStarted count refused) (Or.inr (Or.inr inside))
  · exact iff_of_true (packIntoSafe_of_raised (if_pos count)) (Or.inr (Or.inl count))

/-! ## Unpacking from a buffer -/

theorem unpackFromSafe_iff (floats : FloatCodec) :
    UnpackFromSafe floats fmt buffer offset ↔ fmt.size < 2 ^ 63 ∨ ¬OffsetInside buffer offset := by
  by_cases inside : OffsetInside buffer offset
  · obtain ⟨⟨message, refused⟩, small⟩ | ⟨started, fits⟩ :=
      recordStart_of_inside wellFormed inside "unpack_from" "unpacking"
    · refine iff_of_true ?_ (Or.inl small.1)
      have kept : unpackFrom floats fmt buffer offset = .error (.raised message) := by
        rw [unpackFrom, refused]
        rfl
      rw [UnpackFromSafe, kept]
      trivial
    · by_cases small : fmt.size < 2 ^ 63
      · refine iff_of_true ?_ (Or.inl small)
        have fits := fits.resolve_right (not_le.mpr small)
        obtain ⟨front, record, back, located, start⟩ := located_of_fits inside.2.1 fits
        have read : readAt buffer.bytes (normalizeOffset offset buffer.bytes.length).toNat fmt.size =
            .ok record := by
          rw [located.split]
          exact readAt_split front record back (located.split ▸ start) located.size
        obtain ⟨values, unpacked⟩ := unpackRecord_ok wellFormed located.size floats
        have result : unpackFrom floats fmt buffer offset = .ok values := by
          rw [unpackFrom, started]
          dsimp only [bind, Except.bind]
          rw [usize_record fits]
          dsimp only
          rw [read]
          exact unpacked
        rw [UnpackFromSafe, result]
        exact ⟨front, record, back, located, unpacked⟩
      · refine iff_of_false ?_ (not_or.mpr ⟨small, not_not_intro inside⟩)
        have short := buffer.short
        have beyond : ¬(normalizeOffset offset buffer.bytes.length).toNat + fmt.size ≤
            buffer.bytes.length := by omega
        -- The end of the record overflows, or it is behind the end of the buffer.
        have panicked : unpackFrom floats fmt buffer offset = .error .panicked := by
          rw [unpackFrom, started]
          dsimp only [bind, Except.bind]
          rw [readAt, if_neg beyond, usize]
          split_ifs <;> rfl
        rw [UnpackFromSafe, panicked]
        exact id
  · obtain ⟨message, refused⟩ := recordStart_of_outside inside "unpack_from" "unpacking" fmt
    refine iff_of_true ?_ (Or.inr inside)
    have kept : unpackFrom floats fmt buffer offset = .error (.raised message) := by
      rw [unpackFrom, refused]
      rfl
    rw [UnpackFromSafe, kept]
    trivial

/-- An iterator at the start of a record has the whole record before it. -/
theorem Aligned.next (aligned : Aligned fmt iterator) (floats : FloatCodec) :
    (iterator.pos = iterator.data.length ∧ iterator.next floats fmt = .ok (none, iterator)) ∨
      ∃ front record back values, iterator.data = front ++ record ++ back ∧
        front.length = iterator.pos ∧ record.length = fmt.size ∧
        unpackRecord floats fmt record = .ok values ∧
        iterator.next floats fmt =
          .ok (some values, { iterator with pos := iterator.pos + fmt.size }) := by
  obtain ⟨data, pos⟩ := iterator
  obtain ⟨short, inside, records, record⟩ := aligned
  dsimp only at short inside records record ⊢
  by_cases atEnd : data.length ≤ pos
  · exact Or.inl ⟨Nat.le_antisymm inside atEnd, if_pos atEnd⟩
  · have fits : pos + fmt.size ≤ data.length := by
      have left : fmt.size ≤ data.length - pos := Nat.le_of_dvd (by omega) (Nat.dvd_sub records record)
      omega
    have front : (data.take pos).length = pos := List.length_take_of_le inside
    have size : ((data.drop pos).take fmt.size).length = fmt.size := by
      refine List.length_take_of_le ?_
      rw [List.length_drop]
      omega
    obtain ⟨values, unpacked⟩ := unpackRecord_ok wellFormed size floats
    refine Or.inr ⟨data.take pos, (data.drop pos).take fmt.size, (data.drop pos).drop fmt.size, values, ?_,
      front, size, unpacked, ?_⟩
    · rw [List.append_assoc, List.take_append_drop, List.take_append_drop]
    · rw [UnpackIterator.next, if_neg atEnd, usize, if_pos (by dsimp only; omega), readAt,
        if_pos (by dsimp only; omega)]
      dsimp only [bind, Except.bind]
      rw [unpacked]

theorem Aligned.nextSafe (aligned : Aligned fmt iterator) (floats : FloatCodec) :
    NextSafe floats fmt iterator := by
  obtain ⟨atEnd, result⟩ | ⟨front, record, back, values, split, start, size, unpacked, result⟩ :=
    aligned.next wellFormed floats
  · rw [NextSafe, result]
    exact atEnd
  · rw [NextSafe, result]
    exact ⟨front, record, back, split, start, size, unpacked, rfl⟩

theorem Aligned.iterates {before after : UnpackIterator} (aligned : Aligned fmt before)
    (step : Iterates floats fmt before after) : Aligned fmt after := by
  obtain ⟨record, ok⟩ := step
  obtain ⟨-, result⟩ | ⟨front, record, back, values, split, start, size, -, result⟩ :=
    aligned.next wellFormed floats
  · obtain ⟨-, rfl⟩ := Prod.mk.inj (Except.ok.inj (result.symm.trans ok))
    exact aligned
  · obtain ⟨-, rfl⟩ := Prod.mk.inj (Except.ok.inj (result.symm.trans ok))
    refine ⟨aligned.short, ?_, aligned.records, Nat.dvd_add aligned.record (dvd_refl _)⟩
    have total : before.data.length = before.pos + fmt.size + back.length := by
      rw [split, List.length_append, List.length_append, start, size]
    dsimp only
    omega

/-- Every iterator of a run is at the start of a record or at the end. -/
theorem aligned_run {created : UnpackIterator} (start : iterUnpack fmt buffer = .ok created)
    (run : Relation.ReflTransGen (Iterates floats fmt) created iterator) :
    Aligned fmt iterator := by
  induction run with
  | refl => exact aligned_iterUnpack start
  | tail _ step ih => exact ih.iterates wellFormed step

end Format

end Pon.Struct
