import Mathlib.Data.List.TakeWhile
import Mathlib.Tactic.IntervalCases

/-!
# Base64

Three bytes are written as four characters, and a last group of one or two bytes is padded. The decoder
counts the characters of the current group and the run of padding behind them. In strict mode it takes
exactly the padded groups, and otherwise it skips what is no character of the alphabet. The counters are
32-bit words that wrap around.
-/

namespace Pon.Binascii

/-! ## Alphabet -/

/-- The byte of an ASCII character. -/
def ascii (c : Char) : UInt8 := c.toNat.toUInt8

def PAD : UInt8 := ascii '='

def B64_ALPHABET : List UInt8 :=
  "ABCDEFGHIJKLMNOPQRSTUVWXYZabcdefghijklmnopqrstuvwxyz0123456789+/".toList.map ascii

def b64Value (ch : UInt8) : Option UInt8 :=
  if ascii 'A' ≤ ch ∧ ch ≤ ascii 'Z' then some (ch - ascii 'A')
  else if ascii 'a' ≤ ch ∧ ch ≤ ascii 'z' then some (ch - ascii 'a' + 26)
  else if ascii '0' ≤ ch ∧ ch ≤ ascii '9' then some (ch - ascii '0' + 52)
  else if ch = ascii '+' then some 62
  else if ch = ascii '/' then some 63
  else none

/-- A character of the alphabet. Every index in use is below 64. -/
def b64Char (value : UInt8) : UInt8 := B64_ALPHABET.getD value.toNat 0

/-! ## Encoding -/

def encodeChunk (b0 : UInt8) (b1 b2 : Option UInt8) : List UInt8 :=
  [b64Char (b0 >>> 2), b64Char (((b0 &&& 0x03) <<< 4) ||| (b1.getD 0 >>> 4))] ++
    match b1 with
    | none => [PAD, PAD]
    | some b1 =>
      b64Char (((b1 &&& 0x0f) <<< 2) ||| (b2.getD 0 >>> 6)) ::
        match b2 with
        | none => [PAD]
        | some b2 => [b64Char (b2 &&& 0x3f)]

def encodeChunks : List UInt8 → List UInt8
  | [] => []
  | [b0] => encodeChunk b0 none none
  | [b0, b1] => encodeChunk b0 (some b1) none
  | b0 :: b1 :: b2 :: rest => encodeChunk b0 (some b1) (some b2) ++ encodeChunks rest

def b2aBase64Core (data : List UInt8) (newline : Bool) : List UInt8 :=
  encodeChunks data ++ if newline then [ascii '\n'] else []

/-! ## Decoding -/

structure Quad where
  quadPos : UInt32 := 0
  leftchar : UInt8 := 0
  pads : UInt32 := 0
  out : List UInt8 := []
deriving DecidableEq

/-- A data character ends the run of padding and completes a byte unless it is the first of its group. -/
def Quad.push (quad : Quad) (value : UInt8) : Quad :=
  match quad.quadPos with
  | 0 => { quad with quadPos := 1, leftchar := value, pads := 0 }
  | 1 =>
    { quad with
      quadPos := 2, leftchar := value &&& 0x0f, pads := 0
      out := quad.out ++ [(quad.leftchar <<< 2) ||| (value >>> 4)] }
  | 2 =>
    { quad with
      quadPos := 3, leftchar := value &&& 0x03, pads := 0
      out := quad.out ++ [(quad.leftchar <<< 4) ||| (value >>> 2)] }
  | _ =>
    { quad with
      quadPos := 0, leftchar := 0, pads := 0
      out := quad.out ++ [(quad.leftchar <<< 6) ||| value] }

def Quad.pad (quad : Quad) : Quad := { quad with pads := quad.pads + 1 }

/-- The loop over the characters from an index on. -/
def scanBase64 (strictMode : Bool) : ℕ → List UInt8 → Quad → Except String Quad
  | _, [], quad => .ok quad
  | index, raw :: rest, quad =>
    if raw = PAD then
      if 2 ≤ quad.quadPos ∧ quad.quadPos + quad.pad.pads ≤ 4 then
        scanBase64 strictMode (index + 1) rest quad.pad
      else if ¬strictMode then scanBase64 strictMode (index + 1) rest quad.pad
      else if quad.quadPos = 1 then .ok quad.pad
      else if quad.quadPos = 0 ∧ index = 0 then .error "Leading padding not allowed"
      else .error "Excess padding not allowed"
    else
      match b64Value raw with
      | none =>
        if strictMode then .error "Only base64 data is allowed"
        else scanBase64 strictMode (index + 1) rest quad
      | some value =>
        if quad.pads ≠ 0 ∧ strictMode then
          .error (if quad.quadPos + quad.pads = 4 then "Excess data after padding"
            else "Discontinuous padding not allowed")
        else scanBase64 strictMode (index + 1) rest (quad.push value)

def Quad.finish (quad : Quad) : Except String (List UInt8) :=
  if quad.quadPos = 1 then
    .error ("Invalid base64-encoded string: number of data characters (" ++
      toString (quad.out.length / 3 * 4 + 1) ++ ") cannot be 1 more than a multiple of 4")
  else if quad.quadPos ≠ 0 ∧ quad.quadPos + quad.pads < 4 then .error "Incorrect padding"
  else .ok quad.out

def a2bBase64Core (data : List UInt8) (strictMode : Bool) : Except String (List UInt8) :=
  scanBase64 strictMode 0 data {} >>= Quad.finish

/-- Groups of four characters of the alphabet, with at most two characters of padding in place of the
last ones. -/
def Padded (data : List UInt8) : Prop :=
  ∃ chars pads, data = chars ++ List.replicate pads PAD ∧ pads ≤ 2 ∧ data.length % 4 = 0 ∧
    ∀ ch ∈ chars, ch ∈ B64_ALPHABET

/-! ## Characters -/

theorem b64Value_pad : b64Value PAD = none := by decide

variable {value : UInt8} {q p : UInt32} {strictMode : Bool} {index count : ℕ}

theorem b64Value_b64Char (small : value < 64) : b64Value (b64Char value) = some value := by
  have table : ∀ i : Fin 64, b64Value (b64Char i.val.toUInt8) = some i.val.toUInt8 := by
    decide +kernel
  have index := table ⟨value.toNat, small⟩
  rwa [Nat.toUInt8, UInt8.ofNat_toNat] at index

theorem isSome_b64Value_iff (ch : UInt8) : (b64Value ch).isSome ↔ ch ∈ B64_ALPHABET := by
  have table : ∀ i : Fin 256, (b64Value i.val.toUInt8).isSome ↔ i.val.toUInt8 ∈ B64_ALPHABET := by
    decide +kernel
  have index := table ⟨ch.toNat, ch.toNat_lt⟩
  rwa [Nat.toUInt8, UInt8.ofNat_toNat] at index

theorem pad_notMem : PAD ∉ B64_ALPHABET := by decide

/-! ## Sextets -/

theorem eq_of_bits {left right : UInt8}
    (bits : ∀ i (_ : i < 8), left.toBitVec[i] = right.toBitVec[i]) : left = right := by
  apply UInt8.toBitVec_inj.mp
  ext i bound
  exact bits i bound

theorem first_byte (b0 y : UInt8) :
    ((b0 >>> 2) <<< 2) ||| ((((b0 &&& 0x03) <<< 4) ||| (y >>> 4)) >>> 4) = b0 := by
  apply eq_of_bits
  intro i bound
  interval_cases i <;> simp [BitVec.getElem_shiftLeft]

theorem second_byte (x b1 y : UInt8) :
    (((((x &&& 0x03) <<< 4) ||| (b1 >>> 4)) &&& 0x0f) <<< 4) |||
      ((((b1 &&& 0x0f) <<< 2) ||| (y >>> 6)) >>> 2) = b1 := by
  apply eq_of_bits
  intro i bound
  interval_cases i <;> simp [BitVec.getElem_shiftLeft]

theorem third_byte (x b2 : UInt8) :
    (((((x &&& 0x0f) <<< 2) ||| (b2 >>> 6)) &&& 0x03) <<< 6) ||| (b2 &&& 0x3f) = b2 := by
  apply eq_of_bits
  intro i bound
  interval_cases i <;> simp [BitVec.getElem_shiftLeft]

theorem or_small {left right : UInt8} (leftSmall : left < 64) (rightSmall : right < 64) :
    left ||| right < 64 := by
  rw [UInt8.lt_iff_toNat_lt, UInt8.toNat_or]
  exact Nat.or_lt_two_pow (n := 6) leftSmall rightSmall

theorem small_of_table {f : UInt8 → UInt8} (table : ∀ i : Fin 256, f i.val.toUInt8 < 64) (b : UInt8) :
    f b < 64 := by
  have index := table ⟨b.toNat, b.toNat_lt⟩
  rwa [Nat.toUInt8, UInt8.ofNat_toNat] at index

theorem first_small (b0 : UInt8) : b0 >>> 2 < 64 :=
  small_of_table (f := (· >>> 2)) (by decide +kernel) b0

theorem second_small (b0 y : UInt8) : ((b0 &&& 0x03) <<< 4) ||| (y >>> 4) < 64 :=
  or_small (small_of_table (f := fun b ↦ (b &&& 0x03) <<< 4) (by decide +kernel) b0)
    (small_of_table (f := (· >>> 4)) (by decide +kernel) y)

theorem third_small (b1 y : UInt8) : ((b1 &&& 0x0f) <<< 2) ||| (y >>> 6) < 64 :=
  or_small (small_of_table (f := fun b ↦ (b &&& 0x0f) <<< 2) (by decide +kernel) b1)
    (small_of_table (f := (· >>> 6)) (by decide +kernel) y)

theorem fourth_small (b2 : UInt8) : b2 &&& 0x3f < 64 :=
  small_of_table (f := (· &&& 0x3f)) (by decide +kernel) b2

/-! ## Scanning -/

/-- Padding that fits behind the characters of the group is counted. -/
theorem scanBase64_pad (fits : 2 ≤ q ∧ q + (p + 1) ≤ 4) (strictMode : Bool) (index : ℕ)
    (rest : List UInt8) (leftchar : UInt8) (out : List UInt8) :
    scanBase64 strictMode index (PAD :: rest) ⟨q, leftchar, p, out⟩ =
      scanBase64 strictMode (index + 1) rest ⟨q, leftchar, p + 1, out⟩ := by
  rw [scanBase64, if_pos rfl]
  exact if_pos fits

variable {rest : List UInt8}

theorem scanBase64_data {raw : UInt8} {quad : Quad} (found : b64Value raw = some value)
    (unpadded : quad.pads = 0) :
    scanBase64 strictMode index (raw :: rest) quad =
      scanBase64 strictMode (index + 1) rest (quad.push value) := by
  have notPad : raw ≠ PAD := by
    intro isPad
    rw [isPad, b64Value_pad] at found
    exact nomatch found
  rw [scanBase64, if_neg notPad, found]
  exact if_neg fun padded ↦ padded.1 unpadded

theorem scanBase64_char (small : value < 64) {quad : Quad} (unpadded : quad.pads = 0) :
    scanBase64 strictMode index (b64Char value :: rest) quad =
      scanBase64 strictMode (index + 1) rest (quad.push value) :=
  scanBase64_data (b64Value_b64Char small) unpadded

/-! ## Round trip -/

variable (out : List UInt8)

theorem push_first (b0 : UInt8) :
    Quad.push { out := out } (b0 >>> 2) = { quadPos := 1, leftchar := b0 >>> 2, out := out } := rfl

theorem push_second (b0 y : UInt8) :
    Quad.push { quadPos := 1, leftchar := b0 >>> 2, out := out } (((b0 &&& 0x03) <<< 4) ||| (y >>> 4)) =
      { quadPos := 2, leftchar := (((b0 &&& 0x03) <<< 4) ||| (y >>> 4)) &&& 0x0f,
        out := out ++ [b0] } := by
  change Quad.mk _ _ _ _ = _
  rw [first_byte]

theorem push_third (x b1 y : UInt8) :
    Quad.push { quadPos := 2, leftchar := (((x &&& 0x03) <<< 4) ||| (b1 >>> 4)) &&& 0x0f, out := out }
        (((b1 &&& 0x0f) <<< 2) ||| (y >>> 6)) =
      { quadPos := 3, leftchar := (((b1 &&& 0x0f) <<< 2) ||| (y >>> 6)) &&& 0x03,
        out := out ++ [b1] } := by
  change Quad.mk _ _ _ _ = _
  rw [second_byte]

theorem push_fourth (x b2 : UInt8) :
    Quad.push { quadPos := 3, leftchar := (((x &&& 0x0f) <<< 2) ||| (b2 >>> 6)) &&& 0x03, out := out }
        (b2 &&& 0x3f) = { out := out ++ [b2] } := by
  change Quad.mk _ _ _ _ = _
  rw [third_byte]

section

variable (strictMode : Bool) (index : ℕ)

/-- A group of three bytes. -/
theorem scanBase64_three (b0 b1 b2 : UInt8) (rest out : List UInt8) :
    scanBase64 strictMode index (encodeChunk b0 (some b1) (some b2) ++ rest) { out := out } =
      scanBase64 strictMode (index + 4) rest { out := out ++ [b0] ++ [b1] ++ [b2] } := by
  change scanBase64 strictMode index (b64Char _ :: b64Char (((b0 &&& 0x03) <<< 4) ||| (b1 >>> 4)) ::
    b64Char (((b1 &&& 0x0f) <<< 2) ||| (b2 >>> 6)) :: b64Char _ :: rest) _ = _
  rw [scanBase64_char (first_small b0) rfl, push_first, scanBase64_char (second_small b0 b1) rfl,
    push_second, scanBase64_char (third_small b1 b2) rfl, push_third,
    scanBase64_char (fourth_small b2) rfl, push_fourth]

theorem scanBase64_two (b0 b1 : UInt8) (rest out : List UInt8) :
    ∃ left, scanBase64 strictMode index (encodeChunk b0 (some b1) none ++ rest) { out := out } =
      scanBase64 strictMode (index + 4) rest
        { quadPos := 3, leftchar := left, pads := 1, out := out ++ [b0] ++ [b1] } := by
  refine ⟨(((b1 &&& 0x0f) <<< 2) ||| ((0 : UInt8) >>> 6)) &&& 0x03, ?_⟩
  change scanBase64 strictMode index (b64Char _ :: b64Char (((b0 &&& 0x03) <<< 4) ||| (b1 >>> 4)) ::
    b64Char (((b1 &&& 0x0f) <<< 2) ||| ((0 : UInt8) >>> 6)) :: PAD :: rest) _ = _
  rw [scanBase64_char (first_small b0) rfl, push_first, scanBase64_char (second_small b0 b1) rfl,
    push_second, scanBase64_char (third_small b1 0) rfl, push_third,
    scanBase64_pad (q := 3) (p := 0) (by decide)]
  rfl

theorem scanBase64_one (b0 : UInt8) (rest out : List UInt8) :
    ∃ left, scanBase64 strictMode index (encodeChunk b0 none none ++ rest) { out := out } =
      scanBase64 strictMode (index + 4) rest
        { quadPos := 2, leftchar := left, pads := 2, out := out ++ [b0] } := by
  refine ⟨(((b0 &&& 0x03) <<< 4) ||| ((0 : UInt8) >>> 4)) &&& 0x0f, ?_⟩
  change scanBase64 strictMode index (b64Char _ :: b64Char (((b0 &&& 0x03) <<< 4) ||| ((0 : UInt8) >>> 4)) ::
    PAD :: PAD :: rest) _ = _
  rw [scanBase64_char (first_small b0) rfl, push_first, scanBase64_char (second_small b0 0) rfl,
    push_second,
    scanBase64_pad (q := 2) (p := 0) (by decide), scanBase64_pad (q := 2) (p := 0 + 1) (by decide)]
  rfl

end

/-- Behind the encoding of some bytes the decoder has these bytes and stands at the end of a group. -/
theorem scanBase64_encodeChunks (strictMode : Bool) (data rest : List UInt8) (index : ℕ)
    (out : List UInt8) :
    ∃ index' quad, scanBase64 strictMode index (encodeChunks data ++ rest) { out := out } =
        scanBase64 strictMode index' rest quad ∧ quad.finish = .ok (out ++ data) := by
  fun_induction encodeChunks data generalizing index out with
  | case1 => exact ⟨index, { out := out }, rfl, by rw [List.append_nil]; rfl⟩
  | case2 b0 =>
    obtain ⟨left, scanned⟩ := scanBase64_one strictMode index b0 rest out
    exact ⟨_, _, scanned, rfl⟩
  | case3 b0 b1 =>
    obtain ⟨left, scanned⟩ := scanBase64_two strictMode index b0 b1 rest out
    refine ⟨_, _, scanned, ?_⟩
    rw [List.append_assoc]
    rfl
  | case4 b0 b1 b2 data ih =>
    obtain ⟨index', quad, scanned, finished⟩ := ih (index + 4) (out ++ [b0] ++ [b1] ++ [b2])
    refine ⟨index', quad, ?_, ?_⟩
    · rw [List.append_assoc, scanBase64_three, scanned]
    · rw [finished]
      simp

variable (data : List UInt8)

theorem a2b_b2a (strictMode : Bool) :
    a2bBase64Core (b2aBase64Core data false) strictMode = .ok data := by
  obtain ⟨index, quad, scanned, finished⟩ := scanBase64_encodeChunks strictMode data [] 0 []
  rw [a2bBase64Core, b2aBase64Core, if_neg Bool.false_ne_true, scanned]
  exact finished

/-- The line break behind the encoding is skipped. -/
theorem a2b_b2a_newline :
    a2bBase64Core (b2aBase64Core data true) false = .ok data := by
  obtain ⟨index, quad, scanned, finished⟩ := scanBase64_encodeChunks false data [ascii '\n'] 0 []
  rw [a2bBase64Core, b2aBase64Core, if_pos rfl, scanned]
  exact finished

/-! ## Strict decoding -/

theorem quadPos_cases {quadPos : UInt32} (position : quadPos.toNat = count % 4) :
    (quadPos = 0 ∧ count % 4 = 0 ∨ quadPos = 1 ∧ count % 4 = 1) ∨
      quadPos = 2 ∧ count % 4 = 2 ∨ quadPos = 3 ∧ count % 4 = 3 := by
  have below : count % 4 < 4 := Nat.mod_lt count (by decide)
  simp only [← UInt32.toNat_inj]
  change (quadPos.toNat = 0 ∧ _ ∨ quadPos.toNat = 1 ∧ _) ∨ quadPos.toNat = 2 ∧ _ ∨ quadPos.toNat = 3 ∧ _
  omega

theorem quadPos_push {quad : Quad} (position : quad.quadPos.toNat = count % 4) (value : UInt8) :
    (quad.push value).quadPos.toNat = (count + 1) % 4 := by
  obtain ⟨quadPos, leftchar, pads, out⟩ := quad
  obtain (⟨rfl, remainder⟩ | ⟨rfl, remainder⟩) | ⟨rfl, remainder⟩ | ⟨rfl, remainder⟩ :=
    quadPos_cases position
  · change 1 = _
    omega
  · change 2 = _
    omega
  · change 3 = _
    omega
  · change 0 = _
    omega

theorem pads_push (quad : Quad) (value : UInt8) : (quad.push value).pads = 0 := by
  unfold Quad.push
  split <;> rfl

variable {chars : List UInt8}

/-- Characters of the alphabet move the position in the group on. -/
theorem scanBase64_chars (data : ∀ ch ∈ chars, ch ∈ B64_ALPHABET)
    (rest : List UInt8) (index count : ℕ) {quad : Quad} (position : quad.quadPos.toNat = count % 4)
    (unpadded : quad.pads = 0) :
    ∃ quad', scanBase64 strictMode index (chars ++ rest) quad =
        scanBase64 strictMode (index + chars.length) rest quad' ∧
      quad'.quadPos.toNat = (count + chars.length) % 4 ∧ quad'.pads = 0 := by
  induction chars generalizing index count quad with
  | nil => exact ⟨quad, rfl, position, unpadded⟩
  | cons ch chars ih =>
    obtain ⟨value, found⟩ := Option.isSome_iff_exists.mp
      ((isSome_b64Value_iff ch).mpr (data ch List.mem_cons_self))
    obtain ⟨quad', scanned, position', unpadded'⟩ :=
      ih (fun other member ↦ data other (List.mem_cons_of_mem _ member)) (index + 1) (count + 1)
        (quadPos_push position value) (pads_push quad value)
    refine ⟨quad', ?_, ?_, unpadded'⟩
    · rw [List.cons_append, scanBase64_data found unpadded, scanned, List.length_cons, Nat.add_assoc,
        Nat.add_comm 1]
    · rw [position', List.length_cons, Nat.add_assoc, Nat.add_comm 1]

/-- What is neither padding nor a character of the alphabet in its place is refused. -/
theorem strict_other {raw : UInt8} (notPad : raw ≠ PAD) {q : Quad}
    (misplaced : raw ∉ B64_ALPHABET ∨ q.pads ≠ 0) (index : ℕ) (rest : List UInt8) :
    ∃ message, scanBase64 true index (raw :: rest) q = .error message := by
  rw [scanBase64, if_neg notPad]
  cases found : b64Value raw with
  | none => exact ⟨_, rfl⟩
  | some value =>
    have member : raw ∈ B64_ALPHABET := by
      rw [← isSome_b64Value_iff, found]
      rfl
    have padded : q.pads ≠ 0 := misplaced.resolve_left (not_not_intro member)
    dsimp only
    rw [if_pos ⟨padded, rfl⟩]
    exact ⟨_, rfl⟩

theorem strict_excess (notOne : q ≠ 1) (excess : ¬(2 ≤ q ∧ q + (p + 1) ≤ 4)) (index : ℕ)
    (rest : List UInt8) (leftchar : UInt8) (out : List UInt8) :
    ∃ message, scanBase64 true index (PAD :: rest) ⟨q, leftchar, p, out⟩ = .error message := by
  have next : ∃ message, (if q = 0 ∧ index = 0 then
      Except.error (α := Quad) "Leading padding not allowed"
      else .error "Excess padding not allowed") = .error message := by
    split_ifs
    · exact ⟨_, rfl⟩
    · exact ⟨_, rfl⟩
  obtain ⟨message, refused⟩ := next
  refine ⟨message, ?_⟩
  rw [scanBase64, if_pos rfl]
  refine (if_neg excess).trans ?_
  rw [if_neg (not_not_intro rfl)]
  exact (if_neg notOne).trans refused

/-- Padding behind the first character of a group ends the scan, and the group is refused. -/
theorem strict_single (leftchar : UInt8) (out rest : List UInt8) (index : ℕ) :
    ∃ message, (scanBase64 true index (PAD :: rest) ⟨1, leftchar, 0, out⟩ >>= Quad.finish) =
      .error message := by
  rw [scanBase64, if_pos rfl, if_neg fun fits ↦ absurd fits.1 (show ¬(2 : UInt32) ≤ 1 by decide),
    if_neg (not_not_intro rfl), if_pos rfl]
  exact ⟨_, rfl⟩

theorem not_decodes {scanned : Except String Quad} (failed : ∃ message, scanned = .error message) :
    ¬∃ data, (scanned >>= Quad.finish) = .ok data := by
  obtain ⟨message, rfl⟩ := failed
  intro decoded
  obtain ⟨data, decoded⟩ := decoded
  exact nomatch decoded

/-- Behind all the padding of a group nothing more is taken. -/
theorem strict_complete (notOne : q ≠ 1) (padded : p ≠ 0) (full : ¬q + (p + 1) ≤ 4)
    (leftchar : UInt8) (out : List UInt8)
    (finished : ∃ data, Quad.finish ⟨q, leftchar, p, out⟩ = .ok data) (index : ℕ)
    (rest : List UInt8) :
    (∃ data, (scanBase64 true index rest ⟨q, leftchar, p, out⟩ >>= Quad.finish) = .ok data) ↔
      rest = [] := by
  cases rest with
  | nil => exact iff_of_true finished rfl
  | cons raw rest =>
    refine iff_of_false (not_decodes ?_) (List.cons_ne_nil raw rest)
    by_cases isPad : raw = PAD
    · rw [isPad]
      exact strict_excess notOne (fun fits ↦ full fits.2) index rest leftchar out
    · exact strict_other isPad (Or.inr padded) index rest

/-- What a strict decoder takes behind the characters of the alphabet. -/
theorem strict_rest_iff {quad : Quad} (position : quad.quadPos.toNat = count % 4)
    (unpadded : quad.pads = 0) (ended : ∀ ch ∈ rest.head?, ch ∉ B64_ALPHABET) :
    (∃ data, (scanBase64 true index rest quad >>= Quad.finish) = .ok data) ↔
      count % 4 = 0 ∧ rest = [] ∨ count % 4 = 2 ∧ rest = [PAD, PAD] ∨ count % 4 = 3 ∧ rest = [PAD] := by
  obtain ⟨quadPos, leftchar, pads, out⟩ := quad
  dsimp only at position unpadded
  subst unpadded
  cases rest with
  | nil =>
    have finished : (∃ data, Quad.finish ⟨quadPos, leftchar, 0, out⟩ = .ok data) ↔ count % 4 = 0 := by
      obtain (⟨rfl, remainder⟩ | ⟨rfl, remainder⟩) | ⟨rfl, remainder⟩ | ⟨rfl, remainder⟩ :=
        quadPos_cases position
      · exact iff_of_true ⟨_, rfl⟩ remainder
      all_goals exact iff_of_false (fun decoded ↦ nomatch decoded.choose_spec) (by omega)
    refine finished.trans ?_
    simp
  | cons raw rest =>
    by_cases isPad : raw = PAD
    · subst isPad
      obtain (⟨rfl, remainder⟩ | ⟨rfl, remainder⟩) | ⟨rfl, remainder⟩ | ⟨rfl, remainder⟩ :=
        quadPos_cases position
      · have refused := not_decodes
          (strict_excess (q := 0) (p := 0) (by decide) (by decide) index rest leftchar out)
        exact iff_of_false refused (by simp [remainder])
      · obtain ⟨message, refused⟩ := strict_single leftchar out rest index
        rw [refused]
        exact iff_of_false (fun decoded ↦ nomatch decoded.choose_spec) (by simp [remainder])
      · rw [scanBase64_pad (q := 2) (p := 0) (by decide)]
        cases rest with
        | nil => exact iff_of_false (fun decoded ↦ nomatch decoded.choose_spec) (by simp [remainder])
        | cons raw rest =>
          by_cases isPad : raw = PAD
          · subst isPad
            rw [scanBase64_pad (q := 2) (p := 0 + 1) (by decide)]
            refine (strict_complete (by decide) (by decide) (by decide) leftchar out ⟨_, rfl⟩
              (index + 1 + 1) rest).trans ?_
            simp [remainder]
          · have misplaced := strict_other isPad (q := ⟨2, leftchar, 0 + 1, out⟩)
              (Or.inr (show (0 + 1 : UInt32) ≠ 0 by decide)) (index + 1) rest
            exact iff_of_false (not_decodes misplaced) (by simp [isPad, remainder])
      · rw [scanBase64_pad (q := 3) (p := 0) (by decide)]
        refine (strict_complete (by decide) (by decide) (by decide) leftchar out ⟨_, rfl⟩
          (index + 1) rest).trans ?_
        simp [remainder]
    · have misplaced := strict_other isPad (q := ⟨quadPos, leftchar, 0, out⟩)
        (Or.inl (ended raw rfl)) index rest
      exact iff_of_false (not_decodes misplaced) (by simp [isPad])

/-- Characters of the alphabet and what follows them are decoded by what follows. -/
theorem strict_append_iff (data : ∀ ch ∈ chars, ch ∈ B64_ALPHABET)
    (ended : ∀ ch ∈ rest.head?, ch ∉ B64_ALPHABET) :
    (∃ decoded, a2bBase64Core (chars ++ rest) true = .ok decoded) ↔
      chars.length % 4 = 0 ∧ rest = [] ∨ chars.length % 4 = 2 ∧ rest = [PAD, PAD] ∨
        chars.length % 4 = 3 ∧ rest = [PAD] := by
  obtain ⟨quad, scanned, position, unpadded⟩ := @scanBase64_chars true chars data rest 0 0 {} rfl rfl
  rw [Nat.zero_add] at position
  rw [a2bBase64Core, scanned]
  exact strict_rest_iff position unpadded ended

/-- The characters of the alphabet at the start, and what follows them. -/
theorem exists_split :
    ∃ chars rest, data = chars ++ rest ∧ (∀ ch ∈ chars, ch ∈ B64_ALPHABET) ∧
      ∀ ch ∈ rest.head?, ch ∉ B64_ALPHABET := by
  refine ⟨data.takeWhile (· ∈ B64_ALPHABET), data.dropWhile (· ∈ B64_ALPHABET),
    List.takeWhile_append_dropWhile.symm, fun ch member ↦ ?_, fun ch first ↦ ?_⟩
  · have taken := List.mem_takeWhile_imp member
    exact of_decide_eq_true taken
  · have stops := List.head?_dropWhile_not (· ∈ B64_ALPHABET) data
    rw [Option.mem_def.mp first] at stops
    simpa using stops

theorem strict_iff_padded :
    (∃ decoded, a2bBase64Core data true = .ok decoded) ↔ Padded data := by
  constructor
  · obtain ⟨chars, rest, rfl, inside, ended⟩ := exists_split data
    rw [strict_append_iff inside ended]
    intro accepted
    obtain ⟨groups, rfl⟩ | ⟨groups, rfl⟩ | ⟨groups, rfl⟩ := accepted
    · exact ⟨chars, 0, rfl, by decide, by rw [List.append_nil, groups], inside⟩
    · refine ⟨chars, 2, rfl, by decide, ?_, inside⟩
      rw [List.length_append, List.length_cons, List.length_singleton]
      omega
    · refine ⟨chars, 1, rfl, by decide, ?_, inside⟩
      rw [List.length_append, List.length_singleton]
      omega
  · intro padded
    obtain ⟨chars, pads, rfl, few, whole, data⟩ := padded
    rw [List.length_append, List.length_replicate] at whole
    rw [strict_append_iff data]
    · obtain rfl | rfl | rfl : pads = 0 ∨ pads = 1 ∨ pads = 2 := by omega
      · exact Or.inl ⟨by omega, rfl⟩
      · exact Or.inr (Or.inr ⟨by omega, rfl⟩)
      · exact Or.inr (Or.inl ⟨by omega, rfl⟩)
    · intro ch first
      cases pads with
      | zero => exact nomatch first
      | succ pads =>
        obtain rfl := Option.some.inj first
        exact pad_notMem

/-! ## Lenient decoding -/

/-- The characters that the lenient decoder reads. -/
def relevant (data : List UInt8) : List UInt8 := data.filter fun ch ↦ ch ∈ B64_ALPHABET ∨ ch = PAD

theorem scanBase64_relevant (index index' : ℕ) (quad : Quad) :
    scanBase64 false index data quad = scanBase64 false index' (relevant data) quad := by
  induction data generalizing index index' quad with
  | nil => rfl
  | cons raw data ih =>
    by_cases isPad : raw = PAD
    · have kept : relevant (raw :: data) = raw :: relevant data :=
        List.filter_cons_of_pos (decide_eq_true (Or.inr isPad))
      rw [kept, scanBase64, scanBase64, if_pos isPad, if_pos isPad, if_pos Bool.false_ne_true,
        if_pos Bool.false_ne_true]
      split_ifs
      · exact ih _ _ _
      · exact ih _ _ _
    · cases found : b64Value raw with
      | none =>
        have skipped : ¬decide (raw ∈ B64_ALPHABET ∨ raw = PAD) = true := by
          rw [decide_eq_true_eq, ← isSome_b64Value_iff, found]
          exact not_or_intro Bool.false_ne_true isPad
        have dropped : relevant (raw :: data) = relevant data := List.filter_cons_of_neg skipped
        rw [dropped, scanBase64, if_neg isPad, found]
        dsimp only
        rw [if_neg Bool.false_ne_true]
        exact ih _ _ _
      | some value =>
        have member : raw ∈ B64_ALPHABET := by
          rw [← isSome_b64Value_iff, found]
          rfl
        have kept : relevant (raw :: data) = raw :: relevant data :=
          List.filter_cons_of_pos (decide_eq_true (Or.inl member))
        rw [kept, scanBase64, scanBase64, if_neg isPad, if_neg isPad, found]
        dsimp only
        rw [if_neg fun strict ↦ Bool.false_ne_true strict.2,
          if_neg fun strict ↦ Bool.false_ne_true strict.2]
        exact ih _ _ _

theorem lenient_relevant :
    a2bBase64Core data false = a2bBase64Core (relevant data) false := by
  rw [a2bBase64Core, scanBase64_relevant data 0 0]
  rfl

/-- Every byte string is decoded from its encoding in both modes, and with the line break in the lenient
mode. The strict mode takes exactly the padded groups, and the lenient mode decodes a string as what is
left of it without the characters that are neither of the alphabet nor padding. -/
theorem base64_codec :
    (∀ data strictMode, a2bBase64Core (b2aBase64Core data false) strictMode = .ok data) ∧
      (∀ data, a2bBase64Core (b2aBase64Core data true) false = .ok data) ∧
      (∀ data, (∃ decoded, a2bBase64Core data true = .ok decoded) ↔ Padded data) ∧
      ∀ data, a2bBase64Core data false = a2bBase64Core (relevant data) false :=
  ⟨a2b_b2a, a2b_b2a_newline, strict_iff_padded, lenient_relevant⟩

end Pon.Binascii
