import VectorTick.Codec.VarInt

/-! The codecs built from variable-length integers, and what any bytes denote.

A decoder is given the value its out parameter held, which it keeps when it fails early.
-/

set_option autoImplicit false

namespace VectorTick.Codec

open Foundation

/-- What is reported as encoded takes at most `limit` bytes and is read back, whatever follows it.
-/
structure RoundTrips {V : Type} (encode : V → Nat → Stored)
    (decode : V → Bytes → Nat → Except Stop (Nat × V))
    (limit : Nat) : Prop where
  succeeds : ∀ value outputSize, limit ≤ outputSize → (encode value outputSize).size ≠ 0
  length : ∀ value outputSize, (encode value outputSize).size ≠ 0 →
    (encode value outputSize).bytes.length = (encode value outputSize).size
  bounded : ∀ value outputSize, (encode value outputSize).size ≤ limit
  back : ∀ value outputSize, (encode value outputSize).size ≠ 0 → ∀ old rest,
    decode old ((encode value outputSize).bytes ++ rest)
      ((encode value outputSize).bytes ++ rest).length =
      .ok ((encode value outputSize).size, value)

/-- No encoding is a proper prefix of another. -/
def PrefixFree {V : Type} (encode : V → Nat → Stored) : Prop :=
  ∀ first second firstSize secondSize, (encode first firstSize).size ≠ 0 →
    (encode second secondSize).size ≠ 0 →
    (encode first firstSize).bytes <+: (encode second secondSize).bytes →
      first = second ∧ (encode first firstSize).bytes = (encode second secondSize).bytes

theorem RoundTrips.prefixFree {V : Type} {encode : V → Nat → Stored}
    {decode : V → Bytes → Nat → Except Stop (Nat × V)} {limit : Nat}
    (codec : RoundTrips encode decode limit) :
    PrefixFree encode := by
  intro first second firstSize secondSize firstStored secondStored starts
  obtain ⟨rest, whole⟩ := starts
  have readFirst := codec.back first firstSize firstStored first rest
  have readSecond := codec.back second secondSize secondStored first []
  rw [List.append_nil, ← whole, readFirst] at readSecond
  have result := Except.ok.inj readSecond
  have sizes : (encode first firstSize).size = (encode second secondSize).size :=
    congrArg Prod.fst result
  refine ⟨congrArg Prod.snd result, ?_⟩
  rw [← codec.length first firstSize firstStored,
    ← codec.length second secondSize secondStored] at sizes
  exact (whole ▸ List.prefix_append _ rest).eq_of_length sizes

namespace VarIntU

theorem encode_nonzero {value : UInt64} {outputSize : Nat}
    (stored : (encode value outputSize).size ≠ 0) :
    encode value outputSize = ⟨bytes value, (bytes value).length⟩ := by
  by_cases fits : (bytes value).length ≤ outputSize
  · exact encode_fits fits
  · rw [encode_fails (Nat.not_le.mp fits)] at stored
    contradiction

theorem roundTrips : RoundTrips encode (fun _ => decode) maxSize where
  succeeds := by
    intro value outputSize room
    have size := length_bytes_le value
    rw [maxSize] at room
    rw [encode_fits (by omega)]
    exact Nat.ne_of_gt (length_bytes_pos value)
  length := by
    intro value outputSize stored
    rw [encode_nonzero stored]
  bounded := by
    intro value outputSize
    by_cases stored : (encode value outputSize).size = 0
    · rw [stored]
      exact Nat.zero_le _
    · rw [encode_nonzero stored]
      exact length_bytes_le value
  back := by
    intro value outputSize stored _ rest
    rw [encode_nonzero stored]
    exact decode_bytes value rest (List.length_append ▸ Nat.le_add_right _ _)

/-- The number that groups of seven bits denote, the lowest first. -/
def denoted : Bytes → Nat
  | [] => 0
  | byte :: rest => byte.toNat % 128 + 128 * denoted rest

theorem denoted_lt (bytes : Bytes) : denoted bytes < 128 ^ bytes.length := by
  induction bytes with
  | nil => simp [denoted]
  | cons byte rest ih =>
    rw [denoted, List.length_cons, Nat.pow_succ]
    omega

theorem denoted_append (first second : Bytes) :
    denoted (first ++ second) = denoted first + 128 ^ first.length * denoted second := by
  induction first with
  | nil => simp [denoted]
  | cons byte rest ih =>
    rw [List.cons_append, denoted, denoted, ih, List.length_cons, Nat.pow_succ]
    ring

/-- A group or-ed in above the bits gathered, cut off at the end of the word. -/
theorem toNat_or_group (gathered : UInt64) (byte : UInt8) {shift : Nat} (inWord : shift < 64)
    (below : gathered.toNat < 2 ^ shift) :
    (gathered ||| ((byte &&& 0x7F).toUInt64 <<< UInt64.ofNat shift)).toNat =
      (gathered.toNat + 2 ^ shift * (byte.toNat % 128)) % 2 ^ 64 := by
  have word : 2 ^ 64 = 2 ^ (64 - shift) * 2 ^ shift := by
    rw [← Nat.pow_add]
    congr 1
    omega
  have cut : byte.toNat % 128 * 2 ^ shift % 2 ^ 64 =
      byte.toNat % 128 % 2 ^ (64 - shift) * 2 ^ shift := by
    rw [word, Nat.mul_mod_mul_right]
  have sum : gathered.toNat + byte.toNat % 128 % 2 ^ (64 - shift) * 2 ^ shift < 2 ^ 64 := by
    have room := Nat.mul_le_mul_right (2 ^ shift)
      (Nat.succ_le_of_lt (Nat.mod_lt (byte.toNat % 128) (Nat.two_pow_pos (64 - shift))))
    rw [Nat.succ_mul, ← word] at room
    omega
  rw [UInt64.toNat_or, toNat_shiftLeft_word _ inWord, UInt8.toNat_toUInt64, toNat_and_low, cut,
    or_mul_two_pow _ below, ← Nat.mod_eq_of_lt sum, ← cut, Nat.add_mod_mod,
    Nat.mul_comm (byte.toNat % 128)]

theorem decodeFrom_denoted (left : Nat) (input : Bytes) (size shift : Nat)
    {gathered : UInt64} (consumed : Nat)
    (ends : shift + 7 * left = 70) (below : gathered.toNat < 2 ^ shift) {used : Nat}
    (found : terminator left (input.take size) = some used) :
    ∃ value, decodeFrom left input size shift gathered consumed = .ok (consumed + used, value) ∧
      value.toNat = (gathered.toNat + 2 ^ shift * denoted (input.take used)) % 2 ^ 64 := by
  induction left generalizing input size shift gathered consumed used with
  | zero => cases found
  | succ left ih =>
    cases size with
    | zero => cases found
    | succ size =>
      cases input with
      | nil => cases found
      | cons byte rest =>
        have gathers := toNat_or_group gathered byte (by omega : shift < 64) below
        rw [List.take_succ_cons, terminator] at found
        rw [decodeFrom_cons (Nat.succ_pos size)]
        by_cases last : byte.toNat < 128
        · rw [if_pos last] at found
          cases found
          rw [if_pos ((and_high_eq_zero byte).mpr last)]
          refine ⟨_, rfl, ?_⟩
          rw [gathers, List.take_succ_cons, List.take_zero, denoted, denoted,
            Nat.mul_zero, Nat.add_zero]
        · rw [if_neg last] at found
          obtain ⟨tail, inRest, rfl⟩ := Option.map_eq_some_iff.mp found
          have next : gathered.toNat + 2 ^ shift * (byte.toNat % 128) < 2 ^ (shift + 7) := by
            have room := Nat.mul_le_mul_left (2 ^ shift) (by omega : byte.toNat % 128 + 1 ≤ 128)
            rw [Nat.mul_add, Nat.mul_one] at room
            rw [Nat.pow_add]
            omega
          obtain ⟨value, loop, sum⟩ := ih rest size (shift + 7) (consumed + 1) (by omega)
            (gathers ▸ Nat.lt_of_le_of_lt (Nat.mod_le _ _) next) inRest
          refine ⟨value, ?_, ?_⟩
          · rw [if_neg (fun zero => last ((and_high_eq_zero byte).mp zero)),
              show size.succ - 1 = size from rfl, loop, Nat.add_assoc, Nat.add_comm 1 tail]
          · rw [sum, gathers, List.take_succ_cons, denoted, Nat.mod_add_mod, Nat.pow_add]
            ring_nf

theorem decode_denoted {input : Bytes} {inputSize used : Nat} {value : UInt64}
    (read : decode input inputSize = .ok (used, value)) (accepted : used ≠ 0) :
    frontSize (input.take inputSize) = some used ∧
      value.toNat = denoted (input.take used) % 2 ^ 64 := by
  rcases decode_cases input inputSize with ⟨found, _, front, decoded⟩ |
    ⟨_, _, _, decoded⟩ | ⟨_, _, decoded⟩
  · have sizes : found = used := congrArg Prod.fst (Except.ok.inj (decoded.symm.trans read))
    rw [sizes] at front
    obtain ⟨number, loop, sum⟩ := decodeFrom_denoted maxSize input inputSize 0 0 (by decide)
      (by decide : (0 : UInt64).toNat < 2 ^ 0) front
    have numbers : number = value := congrArg Prod.snd (Except.ok.inj (loop.symm.trans read))
    rw [numbers, Nat.pow_zero, Nat.one_mul] at sum
    exact ⟨front, by simpa using sum⟩
  · exact absurd (congrArg Prod.fst (Except.ok.inj (decoded.symm.trans read))).symm accepted
  · rw [decoded] at read
    cases read

theorem terminator_spec {left : Nat} {input : Bytes} {used : Nat}
    (found : terminator left input = some used) :
    used ≤ left ∧ (∀ i < used - 1, 128 ≤ (input.getD i 0).toNat) ∧
      (input.getD (used - 1) 0).toNat < 128 := by
  induction left generalizing input used with
  | zero => cases found
  | succ left ih =>
    cases input with
    | nil => cases found
    | cons byte rest =>
      rw [terminator] at found
      by_cases last : byte.toNat < 128
      · rw [if_pos last] at found
        cases found
        exact ⟨by omega, fun i before => by omega, last⟩
      · rw [if_neg last] at found
        obtain ⟨tail, inRest, rfl⟩ := Option.map_eq_some_iff.mp found
        have some := (terminator_bounds inRest).1
        obtain ⟨short, before, final⟩ := ih inRest
        refine ⟨by omega, fun i inside => ?_, ?_⟩
        · cases i with
          | zero => exact Nat.not_lt.mp last
          | succ i => exact before i (by omega)
        · rw [Nat.add_sub_cancel, ← Nat.sub_add_cancel some, List.getD_cons_succ]
          exact final

/-- Nine bytes with continuation bits, and a tenth of which more than the lowest bit is set. -/
def Overlong (input : Bytes) : Prop :=
  (∀ i < 9, 128 ≤ (input.getD i 0).toNat) ∧ 2 ≤ (input.getD 9 0).toNat

/-- The number at the front of the bytes is a `u64` unless they are overlong. -/
theorem denoted_lt_iff {left : Nat} {input : Bytes} {used : Nat} (ten : left = 10)
    (found : terminator left input = some used) : denoted (input.take used) < 2 ^ 64 ↔
      ¬ Overlong input := by
  have bounds := terminator_bounds found
  obtain ⟨short, before, final⟩ := terminator_spec found
  rw [ten] at short
  by_cases nine : used ≤ 9
  · have value := denoted_lt (input.take used)
    rw [List.length_take, Nat.min_eq_left bounds.2] at value
    have power : 128 ^ used ≤ 128 ^ 9 := Nat.pow_le_pow_right (by decide) nine
    constructor
    · intro _ overlong
      have continued := overlong.1 (used - 1) (by omega)
      omega
    · intro _
      omega
  · have whole : used = 9 + 1 := by omega
    subst whole
    rw [Nat.add_sub_cancel] at before final
    have size : (input.take 9).length = 9 := by
      rw [List.length_take]
      omega
    have low := denoted_lt (input.take 9)
    have tenth : input[9]? = some (input.getD 9 0) := by
      rw [List.getD_eq_getElem?_getD, List.getElem?_eq_getElem (by omega), Option.getD_some]
    rw [List.take_add_one, tenth, denoted_append, size]
    rw [size] at low
    simp only [Option.toList_some, denoted, Nat.mul_zero, Nat.add_zero]
    rw [Nat.mod_eq_of_lt final]
    constructor
    · intro small overlong
      have high := overlong.2
      omega
    · intro ordinary
      have high : ¬ 2 ≤ (input.getD 9 0).toNat := fun high => ordinary ⟨before, high⟩
      omega

instance (input : Bytes) : Decidable (Overlong input) := inferInstanceAs (Decidable (_ ∧ _))

/-- Decoding is exact but for overlong bytes, of which it drops the high bits. -/
theorem decode_exact_iff {input : Bytes} {used : Nat} {value : UInt64}
    (read : decode input input.length = .ok (used, value))
    (accepted : used ≠ 0) : value.toNat = denoted (input.take used) ↔ ¬ Overlong input := by
  obtain ⟨front, number⟩ := decode_denoted read accepted
  rw [List.take_length] at front
  rw [number, ← denoted_lt_iff rfl front]
  constructor
  · intro exactly
    rw [← exactly]
    exact Nat.mod_lt _ (by decide)
  · exact fun small => Nat.mod_eq_of_lt small

theorem decode_exact_iff_two : (300 : UInt64).toNat = denoted ([0xAC, 0x02, 0x7F].take 2) ↔
    ¬ Overlong [0xAC, 0x02, 0x7F] :=
  decode_exact_iff
    (by decide : decode [0xAC, 0x02, 0x7F] [0xAC, 0x02, 0x7F].length = .ok (2, 300)) (by decide)

/-- Ten bytes that denote 2^64 are accepted, as zero. -/
theorem decode_loses_bit : ¬ ∀ (input : Bytes) (used : Nat) (value : UInt64),
    decode input input.length = .ok (used, value) → used ≠ 0 →
      value.toNat = denoted (input.take used) := by
  intro claimed
  have lost := claimed (List.replicate 9 0x80 ++ [0x02]) 10 0 (by decide) (by decide)
  revert lost
  decide

end VarIntU

namespace VarIntI

def maxSize : Nat := 10

def encode (value : Int64) (outputSize : Nat) : Stored :=
  VarIntU.encode (ZigZag.encode value) outputSize

def decode (value : Int64) (input : Bytes) (inputSize : Nat) : Except Stop (Nat × Int64) := do
  let (consumed, zigzag) ← VarIntU.decode input inputSize
  if consumed = 0 then return (0, value)
  return (consumed, ZigZag.decode zigzag)

theorem roundTrips : RoundTrips encode decode maxSize where
  succeeds := fun value => VarIntU.roundTrips.succeeds (ZigZag.encode value)
  length := fun value => VarIntU.roundTrips.length (ZigZag.encode value)
  bounded := fun value => VarIntU.roundTrips.bounded (ZigZag.encode value)
  back := by
    intro value outputSize stored old rest
    have read := VarIntU.roundTrips.back (ZigZag.encode value) outputSize stored 0 rest
    rw [encode] at stored
    rw [decode, encode, read, ok_bind]
    dsimp only
    rw [if_neg stored, ZigZag.decode_encoded]
    rfl

end VarIntI

namespace GroupVarIntU32

def maxSize : Nat := 17

def lengthOf (value : UInt32) : Nat :=
  if value.toNat < 1 <<< 8 then 1
  else if value.toNat < 1 <<< 16 then 2
  else if value.toNat < 1 <<< 24 then 3
  else 4

def lengthsByte (lengths : List Nat) : UInt8 :=
  UInt8.ofNat
    ((lengths.getD 0 0 - 1) ||| ((lengths.getD 1 0 - 1) <<< 2) |||
    ((lengths.getD 2 0 - 1) <<< 4) |||
    ((lengths.getD 3 0 - 1) <<< 6))

/-- The low bytes of a value. -/
def dataBytes : Nat → UInt32 → Bytes
  | 0, _ => []
  | left + 1, value => value.toUInt8 :: dataBytes left (value >>> 8)

def encode (values : Vector UInt32 4) (outputSize : Nat) : Stored :=
  let lengths := values.toList.map lengthOf
  let totalBytes := 1 + lengths.sum
  if outputSize < totalBytes then ⟨[], 0⟩
  else ⟨lengthsByte lengths :: values.toList.flatMap fun value =>
    dataBytes (lengthOf value) value, totalBytes⟩

def lengthAt (lengthsByte : UInt8) (i : Nat) : Nat := ((lengthsByte.toNat >>> (i * 2)) &&& 0x03) + 1

/-- The `for` loop over the bytes of one value, with its running offset. -/
def readValue (input : Bytes) : Nat → Nat → Nat → UInt32 → Except Stop UInt32
  | 0, _, _, value => .ok value
  | left + 1, offset, j, value =>
    match input[offset]? with
    | none => .error .fault
    | some byte =>
      readValue input left (offset + 1) (j + 1) (value ||| (byte.toUInt32 <<< UInt32.ofNat (j * 8)))

def readValues (input : Bytes) : List Nat → Nat → Except Stop (List UInt32)
  | [], _ => .ok []
  | length :: lengths, offset => do
    let value ← readValue input length offset 0 0
    let rest ← readValues input lengths (offset + length)
    return value :: rest

def decode (values : Vector UInt32 4) (input : Bytes) (inputSize : Nat) :
    Except Stop (Nat × Vector UInt32 4) :=
  if inputSize < 1 then .ok (0, values)
  else
    match input[0]? with
    | none => .error .fault
    | some byte =>
      let lengths := (List.range 4).map (lengthAt byte)
      if inputSize < 1 + lengths.sum then .ok (0, values)
      else do
        let read ← readValues input lengths 1
        return (1 + lengths.sum, Vector.ofFn fun i => read.getD i.val 0)

theorem lengthOf_bounds (value : UInt32) : 1 ≤ lengthOf value ∧ lengthOf value ≤ 4 := by
  unfold lengthOf
  split
  · decide
  · split
    · decide
    · split <;> decide

theorem lt_lengthOf (value : UInt32) : value.toNat < 256 ^ lengthOf value := by
  unfold lengthOf
  split
  · next small => exact small
  · split
    · next small => exact small
    · split
      · next small => exact small
      · exact value.toNat_lt

theorem lengthAt_lengthsByte {lengths : List Nat} (four : lengths.length = 4)
    (bounds : ∀ length ∈ lengths, 1 ≤ length ∧ length ≤ 4) :
    (List.range 4).map (lengthAt (lengthsByte lengths)) = lengths := by
  have table : ∀ a b c d : Fin 4,
      (List.range 4).map (lengthAt (lengthsByte [a.val + 1, b.val + 1, c.val + 1, d.val + 1])) =
        [a.val + 1, b.val + 1, c.val + 1, d.val + 1] := by decide
  rcases lengths with _ | ⟨a, _ | ⟨b, _ | ⟨c, _ | ⟨d, _ | ⟨e, more⟩⟩⟩⟩⟩ <;> simp at four
  simp only [List.mem_cons, List.not_mem_nil, or_false, forall_eq_or_imp, forall_eq] at bounds
  obtain ⟨first, second, third, fourth⟩ := bounds
  have entry := table ⟨a - 1, by omega⟩ ⟨b - 1, by omega⟩ ⟨c - 1, by omega⟩ ⟨d - 1, by omega⟩
  simpa only [Nat.sub_add_cancel first.1, Nat.sub_add_cancel second.1, Nat.sub_add_cancel third.1,
    Nat.sub_add_cancel fourth.1] using entry

@[simp] theorem length_dataBytes (length : Nat) (value : UInt32) :
    (dataBytes length value).length = length := by
  induction length generalizing value with
  | zero => rfl
  | succ length ih => rw [dataBytes, List.length_cons, ih]

theorem dataBytes_eq_le (length : Nat) (value : UInt32) :
    dataBytes length value = le length value.toNat := by
  induction length generalizing value with
  | zero => rfl
  | succ length ih =>
    have quotient : (value >>> 8).toNat = value.toNat / 256 := by
      rw [UInt32.toNat_shiftRight]
      simp [Nat.shiftRight_eq_div_pow]
    rw [dataBytes, le, ih, quotient, UInt8.ofNat_uInt32ToNat]

theorem toNat_or_byte (value : UInt32) (byte : UInt8) {j : Nat} (inWord : j < 4)
    (below : value.toNat < 256 ^ j) :
    (value ||| (byte.toUInt32 <<< UInt32.ofNat (j * 8))).toNat =
      value.toNat + 256 ^ j * byte.toNat := by
  have power : 256 ^ j = 2 ^ (8 * j) := by rw [Nat.pow_mul]
  rw [power] at below ⊢
  rw [UInt32.toNat_or, toNat_placed_byte byte inWord, or_mul_two_pow _ below,
    Nat.mul_comm byte.toNat]

theorem readValue_eq {input : Bytes} (left offset j : Nat) {value : UInt32} (four : j + left ≤ 4)
    (inside : offset + left ≤ input.length) (below : value.toNat < 256 ^ j) :
    ∃ read, readValue input left offset j value = .ok read ∧
      read.toNat = value.toNat + 256 ^ j * leValue (slice input offset left) := by
  induction left generalizing offset j value with
  | zero => exact ⟨value, rfl, by simp [slice, leValue]⟩
  | succ left ih =>
    have present : offset < input.length := by omega
    have low := (input[offset]).toNat_lt
    have gathered := toNat_or_byte value input[offset] (by omega) below
    have next : (value ||| (input[offset].toUInt32 <<< UInt32.ofNat (j * 8))).toNat <
        256 ^ (j + 1) := by
      have room := Nat.mul_le_mul_left (256 ^ j) (by omega : input[offset].toNat + 1 ≤ 256)
      rw [Nat.mul_add, Nat.mul_one] at room
      rw [gathered, Nat.pow_succ]
      omega
    obtain ⟨read, loop, sum⟩ := ih (offset + 1) (j + 1) (by omega) (by omega) next
    have bytes : slice input offset (left + 1) =
        input[offset] :: slice input (offset + 1) left := by
      rw [slice, slice, List.drop_eq_getElem_cons present, List.take_succ_cons]
    refine ⟨read, ?_, ?_⟩
    · rw [readValue, List.getElem?_eq_getElem present]
      exact loop
    · rw [sum, gathered, bytes, leValue, Nat.pow_succ]
      ring

theorem readValues_eq {input : Bytes} (values : List UInt32) (rest : Bytes) {offset : Nat}
    (ahead : input.drop offset =
      (values.flatMap fun value => dataBytes (lengthOf value) value) ++ rest) :
    readValues input (values.map lengthOf) offset = .ok values := by
  induction values generalizing offset with
  | nil => rfl
  | cons value others ih =>
    rw [List.flatMap_cons, List.append_assoc] at ahead
    have size := congrArg List.length ahead
    rw [List.length_drop, List.length_append, length_dataBytes] at size
    have bounds := lengthOf_bounds value
    have own : slice input offset (lengthOf value) = le (lengthOf value) value.toNat := by
      rw [slice, ahead, List.take_left' (length_dataBytes _ _), dataBytes_eq_le]
    have inside : offset + lengthOf value ≤ input.length := by omega
    obtain ⟨read, loop, sum⟩ := readValue_eq (lengthOf value) offset 0 (by omega) inside
      (by decide : (0 : UInt32).toNat < 256 ^ 0)
    have same : read = value := by
      apply UInt32.toNat_inj.mp
      rw [sum, own, leValue_le _ _ (lt_lengthOf value)]
      simp
    have behind : input.drop (offset + lengthOf value) =
        (others.flatMap fun value => dataBytes (lengthOf value) value) ++ rest := by
      rw [← List.drop_drop, ahead, List.drop_left' (length_dataBytes _ _)]
    rw [List.map_cons, readValues, loop, ok_bind, ih behind, ok_bind, same]
    rfl

theorem sum_lengths_bounds (values : List UInt32) :
    values.length ≤ (values.map lengthOf).sum ∧ (values.map lengthOf).sum ≤ 4 * values.length := by
  induction values with
  | nil => simp
  | cons value others ih =>
    have bounds := lengthOf_bounds value
    rw [List.map_cons, List.sum_cons, List.length_cons]
    omega

theorem length_data (values : List UInt32) :
    (values.flatMap fun value => dataBytes (lengthOf value) value).length =
      (values.map lengthOf).sum := by
  rw [List.length_flatMap]
  simp only [length_dataBytes]

theorem encode_size (values : Vector UInt32 4) (outputSize : Nat) :
    (encode values outputSize).size =
      if outputSize < 1 + (values.toList.map lengthOf).sum then
        0 else 1 + (values.toList.map lengthOf).sum := by
  simp only [encode]
  split <;> rfl

theorem encode_nonzero {values : Vector UInt32 4} {outputSize : Nat}
    (stored : (encode values outputSize).size ≠ 0) :
    encode values outputSize =
      ⟨lengthsByte (values.toList.map lengthOf) :: values.toList.flatMap fun value =>
        dataBytes (lengthOf value) value,
        1 + (values.toList.map lengthOf).sum⟩ := by
  rw [encode_size] at stored
  simp only [encode]
  split at stored
  · contradiction
  · next room => rw [if_neg room]

theorem roundTrips : RoundTrips encode decode maxSize where
  succeeds := by
    intro values outputSize room
    have sizes := (sum_lengths_bounds values.toList).2
    rw [Vector.length_toList] at sizes
    rw [maxSize] at room
    rw [encode_size, if_neg (by omega)]
    omega
  length := by
    intro values outputSize stored
    rw [encode_nonzero stored]
    rw [List.length_cons, length_data, Nat.add_comm]
  bounded := by
    intro values outputSize
    have sizes := (sum_lengths_bounds values.toList).2
    rw [Vector.length_toList] at sizes
    rw [encode_size, maxSize]
    split <;> omega
  back := by
    intro values outputSize stored old rest
    rw [encode_nonzero stored]
    have tags := @lengthAt_lengthsByte (values.toList.map lengthOf) (by simp) (by
      intro length member
      obtain ⟨value, -, rfl⟩ := List.mem_map.mp member
      exact lengthOf_bounds value)
    have read := @readValues_eq (lengthsByte (values.toList.map lengthOf) ::
      (values.toList.flatMap fun value => dataBytes (lengthOf value) value) ++
        rest) values.toList rest 1 rfl
    have whole : (Vector.ofFn fun i : Fin 4 => values.toList.getD i.val 0) = values := by
      apply Vector.ext
      intro i inside
      simp
    have size : ¬ ((lengthsByte (values.toList.map lengthOf) ::
        (values.toList.flatMap fun value => dataBytes (lengthOf value) value)) ++ rest).length <
          1 + (values.toList.map lengthOf).sum := by
      rw [List.length_append, List.length_cons, length_data]
      omega
    rw [decode, if_neg (by rw [List.cons_append, List.length_cons]; omega), List.cons_append,
      List.getElem?_cons_zero]
    dsimp only
    rw [tags]
    rw [List.cons_append] at size read
    rw [if_neg size, read, ok_bind, whole]
    rfl

end GroupVarIntU32

/-- Every codec of integers reads back what it stored, and no encoding starts another. -/
theorem varInts_roundTrip :
    (RoundTrips VarIntU.encode (fun _ => VarIntU.decode) 10 ∧ PrefixFree VarIntU.encode) ∧
      (RoundTrips VarIntI.encode VarIntI.decode 10 ∧ PrefixFree VarIntI.encode) ∧
      (RoundTrips GroupVarIntU32.encode GroupVarIntU32.decode 17 ∧
        PrefixFree GroupVarIntU32.encode) :=
  ⟨⟨VarIntU.roundTrips, VarIntU.roundTrips.prefixFree⟩,
    ⟨VarIntI.roundTrips, VarIntI.roundTrips.prefixFree⟩,
    GroupVarIntU32.roundTrips, GroupVarIntU32.roundTrips.prefixFree⟩

end VectorTick.Codec
