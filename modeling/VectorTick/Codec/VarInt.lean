import VectorTick.Common.Status
import VectorTick.Foundation.BitView

/-! Variable-length integers and zigzag coding.

An encoder is modelled by the bytes it left at its output pointer and the size it returned;
a failed encode returns size zero and may have stored a few bytes before it gave up. A decoder
is given every byte that really lies ahead of its input pointer and, separately, the input
size it was told, which need not agree.
-/

set_option autoImplicit false

namespace VectorTick.Codec

open Foundation

structure Stored where
  bytes : Bytes
  size : Nat
  deriving DecidableEq, Repr

namespace VarIntU

def maxSize : Nat := 10

/-- The `do … while (value != 0)` loop; `room` is `output_size - written`. -/
def encodeFrom : Nat → UInt64 → Nat → Bytes × Bool
  | 0, _, _ => ([], false)
  | fuel + 1, value, room =>
    if room = 0 then ([], false)
    else
      let low := (value &&& 0x7F).toUInt8
      let rest := value >>> 7
      if rest ≠ 0 then
        let tail := encodeFrom fuel rest (room - 1)
        ((low ||| 0x80) :: tail.1, tail.2)
      else ([low], true)

def encode (value : UInt64) (outputSize : Nat) : Stored :=
  let out := encodeFrom maxSize value outputSize
  ⟨out.1, if out.2 then out.1.length else 0⟩

/-- The `for` loop: `left` counts down from `MaxSize`, `size` from `input_size`. -/
def decodeFrom : Nat → Bytes → Nat → Nat → UInt64 → Nat → Except Stop (Nat × UInt64)
  | 0, _, _, _, value, _ => .ok (0, value)
  | left + 1, input, size, shift, value, consumed =>
    if size = 0 then .ok (0, value)
    else
      match input with
      | [] => .error .fault
      | byte :: rest =>
        let value := value ||| ((byte &&& 0x7F).toUInt64 <<< UInt64.ofNat shift)
        if byte &&& 0x80 = 0 then .ok (consumed + 1, value)
        else decodeFrom left rest (size - 1) (shift + 7) value (consumed + 1)

def decode (input : Bytes) (inputSize : Nat) : Except Stop (Nat × UInt64) :=
  decodeFrom maxSize input inputSize 0 0 0

/-- The groups of seven bits, each but the last with its continuation bit. -/
def groups : Nat → UInt64 → Bytes
  | 0, _ => []
  | fuel + 1, value =>
    let low := (value &&& 0x7F).toUInt8
    let rest := value >>> 7
    if rest ≠ 0 then (low ||| 0x80) :: groups fuel rest else [low]

def bytes (value : UInt64) : Bytes := groups maxSize value

theorem toNat_shiftRight_seven (value : UInt64) : (value >>> 7).toNat = value.toNat / 128 := by
  rw [UInt64.toNat_shiftRight]
  simp [Nat.shiftRight_eq_div_pow]

theorem toNat_low (value : UInt64) : (value &&& 0x7F).toUInt8.toNat = value.toNat % 128 := by
  have mask : (0x7F : UInt64).toNat = 2 ^ 7 - 1 := rfl
  rw [UInt64.toNat_toUInt8, UInt64.toNat_and, mask, Nat.and_two_pow_sub_one_eq_mod]
  omega

theorem rest_ne_zero (value : UInt64) : value >>> 7 ≠ 0 ↔ 128 ≤ value.toNat := by
  rw [← UInt64.toNat_inj.ne, toNat_shiftRight_seven, UInt64.toNat_zero]
  omega

theorem groups_more {value : UInt64} (more : 128 ≤ value.toNat) (fuel : Nat) :
    groups (fuel + 1) value = ((value &&& 0x7F).toUInt8 ||| 0x80) :: groups fuel (value >>> 7) := by
  rw [groups]
  exact if_pos ((rest_ne_zero value).mpr more)

theorem groups_last {value : UInt64} (last : value.toNat < 128) (fuel : Nat) :
    groups (fuel + 1) value = [(value &&& 0x7F).toUInt8] := by
  rw [groups]
  exact if_neg (fun more => absurd ((rest_ne_zero value).mp more) (by omega))

theorem length_groups_le (fuel : Nat) (value : UInt64) : (groups fuel value).length ≤ fuel := by
  induction fuel generalizing value with
  | zero => simp [groups]
  | succ fuel ih =>
    by_cases more : 128 ≤ value.toNat
    · simpa [groups_more more] using ih (value >>> 7)
    · simp [groups_last (by omega : value.toNat < 128)]

theorem length_bytes_le (value : UInt64) : (bytes value).length ≤ 10 := length_groups_le _ _

theorem length_bytes_pos (value : UInt64) : 0 < (bytes value).length := by
  by_cases more : 128 ≤ value.toNat
  · simp [bytes, maxSize, groups_more more]
  · simp [bytes, maxSize, groups_last (by omega : value.toNat < 128)]

theorem quotient_lt {value : UInt64} {fuel : Nat} (enough : value.toNat < 128 ^ (fuel + 1)) :
    (value >>> 7).toNat < 128 ^ fuel := by
  rw [toNat_shiftRight_seven]
  apply Nat.div_lt_of_lt_mul
  rwa [Nat.pow_succ, Nat.mul_comm] at enough

/-- The loop stores the groups, or as many of them as there is room for. -/
theorem encodeFrom_eq (fuel : Nat) (value : UInt64) (room : Nat)
    (enough : value.toNat < 128 ^ (fuel + 1)) :
    encodeFrom (fuel + 1) value room =
      if (groups (fuel + 1) value).length ≤ room then (groups (fuel + 1) value, true)
      else ((groups (fuel + 1) value).take room, false) := by
  induction fuel generalizing value room with
  | zero =>
    have last : value.toNat < 128 := by omega
    have stop : ¬ value >>> 7 ≠ 0 := fun more => absurd ((rest_ne_zero value).mp more) (by omega)
    cases room <;> simp [encodeFrom, groups_last last, stop]
  | succ fuel ih =>
    cases room with
    | zero =>
      rw [encodeFrom, if_pos rfl, groups]
      split <;> simp
    | succ room =>
      rw [encodeFrom, if_neg (by omega)]
      by_cases more : 128 ≤ value.toNat
      · rw [if_pos ((rest_ne_zero value).mpr more), groups_more more, Nat.add_sub_cancel,
          ih _ _ (quotient_lt enough)]
        simp only [List.length_cons, Nat.add_le_add_iff_right, List.take_succ_cons]
        split <;> rfl
      · rw [if_neg (fun go => more ((rest_ne_zero value).mp go)), groups_last (by omega)]
        simp

theorem enough_fuel (value : UInt64) : value.toNat < 128 ^ 10 :=
  Nat.lt_of_lt_of_le value.toNat_lt (by decide)

theorem encode_fits {value : UInt64} {outputSize : Nat} (fits : (bytes value).length ≤ outputSize) :
    encode value outputSize = ⟨bytes value, (bytes value).length⟩ := by
  have loop : encodeFrom 10 value outputSize = (bytes value, true) :=
    (encodeFrom_eq 9 value outputSize (enough_fuel value)).trans (if_pos fits)
  simp [encode, maxSize, loop]

theorem encode_fails {value : UInt64} {outputSize : Nat}
    (tooLong : outputSize < (bytes value).length) :
    encode value outputSize = ⟨(bytes value).take outputSize, 0⟩ := by
  have loop : encodeFrom 10 value outputSize = ((bytes value).take outputSize, false) :=
    (encodeFrom_eq 9 value outputSize (enough_fuel value)).trans (if_neg (Nat.not_le.mpr tooLong))
  simp [encode, maxSize, loop]

theorem toNat_or_high {byte : UInt8} (low : byte.toNat < 128) :
    (byte ||| 0x80).toNat = byte.toNat + 128 := by
  rw [UInt8.toNat_or]
  exact @or_mul_two_pow byte.toNat 7 1 low

theorem toNat_and_low (byte : UInt8) : (byte &&& 0x7F).toNat = byte.toNat % 128 := by
  have mask : (0x7F : UInt8).toNat = 2 ^ 7 - 1 := rfl
  rw [UInt8.toNat_and, mask, Nat.and_two_pow_sub_one_eq_mod]

theorem and_high_eq_zero (byte : UInt8) : byte &&& 0x80 = 0 ↔ byte.toNat < 128 := by
  have table : ∀ n : Fin 256, (UInt8.ofNat n.val &&& 0x80 = 0) ↔ n.val < 128 := by decide +kernel
  simpa using table ⟨byte.toNat, byte.toNat_lt⟩

theorem toNat_or_shift (group : UInt64) {gathered : UInt64} {shift : Nat} (inWord : shift < 64)
    (below : gathered.toNat < 2 ^ shift) (fits : group.toNat * 2 ^ shift < 2 ^ 64) :
    (gathered ||| (group <<< UInt64.ofNat shift)).toNat =
      gathered.toNat + group.toNat * 2 ^ shift := by
  rw [UInt64.toNat_or, toNat_shiftLeft_word group inWord,
    Nat.mod_eq_of_lt fits, or_mul_two_pow _ below]

theorem decodeFrom_cons {size : Nat} (told : 0 < size) (left : Nat) (byte : UInt8)
    (rest : Bytes) (shift : Nat)
    (gathered : UInt64) (consumed : Nat) :
    decodeFrom (left + 1) (byte :: rest) size shift gathered consumed =
      if byte &&& 0x80 = 0 then
        .ok (consumed + 1, gathered ||| ((byte &&& 0x7F).toUInt64 <<< UInt64.ofNat shift))
      else decodeFrom left rest (size - 1) (shift + 7)
        (gathered ||| ((byte &&& 0x7F).toUInt64 <<< UInt64.ofNat shift)) (consumed + 1) := by
  rw [decodeFrom, if_neg (by omega)]

theorem decodeFrom_last {value : UInt64} {size shift : Nat} {gathered : UInt64}
    (left : Nat) (rest : Bytes)
    (consumed : Nat) (last : value.toNat < 128) (told : 0 < size)
    (below : gathered.toNat < 2 ^ shift)
    (fits : value.toNat * 2 ^ shift < 2 ^ 64) (inWord : shift < 64) :
    ∃ decoded, decodeFrom (left + 1)
    ((value &&& 0x7F).toUInt8 :: rest) size shift gathered consumed =
        .ok (consumed + 1, decoded) ∧ decoded.toNat = gathered.toNat + value.toNat * 2 ^ shift := by
  have lowByte : (value &&& 0x7F).toUInt8.toNat = value.toNat := by
    rw [toNat_low, Nat.mod_eq_of_lt last]
  have ends : (value &&& 0x7F).toUInt8 &&& 0x80 = 0 := (and_high_eq_zero _).mpr (by omega)
  have group : ((value &&& 0x7F).toUInt8 &&& 0x7F).toUInt64.toNat = value.toNat := by
    rw [UInt8.toNat_toUInt64, toNat_and_low, lowByte, Nat.mod_eq_of_lt last]
  refine ⟨gathered ||| (((value &&& 0x7F).toUInt8 &&& 0x7F).toUInt64 <<< UInt64.ofNat shift), ?_,
    ?_⟩
  · rw [decodeFrom_cons told, if_pos ends]
  · rw [toNat_or_shift _ inWord below (by rwa [group]), group]

/-- Reading back the groups of `value` above the bits gathered so far. -/
theorem decodeFrom_groups (left : Nat) (value : UInt64) (rest : Bytes)
    (size shift : Nat) (gathered : UInt64)
    (consumed : Nat) (enough : value.toNat < 128 ^ (left + 1))
    (told : (groups (left + 1) value).length ≤ size)
    (below : gathered.toNat < 2 ^ shift)
    (fits : value.toNat * 2 ^ shift < 2 ^ 64) (inWord : shift < 64) :
    ∃ decoded, decodeFrom (left + 1)
    (groups (left + 1) value ++ rest) size shift gathered consumed =
        .ok (consumed + (groups (left + 1) value).length, decoded) ∧
      decoded.toNat = gathered.toNat + value.toNat * 2 ^ shift := by
  induction left generalizing value size shift gathered consumed with
  | zero =>
    have last : value.toNat < 128 := by omega
    rw [groups_last last] at told ⊢
    exact decodeFrom_last 0 rest consumed last told below fits inWord
  | succ left ih =>
    by_cases more : 128 ≤ value.toNat
    · rw [groups_more more] at told ⊢
      have low : (value &&& 0x7F).toUInt8.toNat < 128 := by
        rw [toNat_low]
        omega
      have byteValue := toNat_or_high low
      have goesOn : ¬ ((value &&& 0x7F).toUInt8 ||| 0x80) &&& 0x80 = 0 := by
        rw [and_high_eq_zero]
        omega
      have group : (((value &&& 0x7F).toUInt8 ||| 0x80) &&& 0x7F).toUInt64.toNat =
          value.toNat % 128 := by
        rw [UInt8.toNat_toUInt64, toNat_and_low, byteValue, toNat_low]
        omega
      -- The word is split as (quotient * 128 + remainder) * 2 ^ shift.
      have split : value.toNat * 2 ^ shift =
          (value.toNat / 128) * 2 ^ (shift + 7) + (value.toNat % 128) * 2 ^ shift := by
        have parts := Nat.div_add_mod value.toNat 128
        rw [Nat.pow_add]
        conv => lhs; rw [← parts]
        ring
      have quotient := toNat_shiftRight_seven value
      have upper : (value >>> 7).toNat * 2 ^ (shift + 7) < 2 ^ 64 := by
        rw [quotient]
        omega
      have shiftBound : shift + 7 < 64 := by
        by_contra beyond
        have large : 2 ^ 64 ≤ 2 ^ (shift + 7) := Nat.pow_le_pow_right (by decide) (by omega)
        have positive : 1 ≤ (value >>> 7).toNat := by
          rw [quotient]
          omega
        have := Nat.mul_le_mul positive large
        omega
      have gatheredNext := toNat_or_shift ((((value &&& 0x7F).toUInt8 ||| 0x80) &&& 0x7F).toUInt64)
        inWord below (by rw [group]; omega)
      rw [group] at gatheredNext
      have belowNext : gathered.toNat + value.toNat % 128 * 2 ^ shift < 2 ^ (shift + 7) := by
        have room : value.toNat % 128 + 1 ≤ 128 := by omega
        have scaled := Nat.mul_le_mul_right (2 ^ shift) room
        rw [Nat.add_mul, Nat.one_mul] at scaled
        rw [Nat.pow_add]
        omega
      simp only [List.length_cons] at told
      obtain ⟨decoded, step, sum⟩ := ih (value >>> 7) (size - 1) (shift + 7) _ (consumed + 1)
        (quotient_lt enough) (by omega) (gatheredNext ▸ belowNext) upper shiftBound
      refine ⟨decoded, ?_, ?_⟩
      · rw [List.cons_append, decodeFrom_cons (by omega), if_neg goesOn, step, List.length_cons]
        congr 2
        omega
      · rw [sum, gatheredNext, split, quotient]
        omega
    · have last : value.toNat < 128 := by omega
      rw [groups_last last] at told ⊢
      exact decodeFrom_last (left + 1) rest consumed last told below fits inWord

/-- Decoding what was encoded, whatever follows, as long as the declared size covers it. -/
theorem decode_bytes (value : UInt64) (rest : Bytes) {inputSize : Nat}
    (told : (bytes value).length ≤ inputSize) :
    decode (bytes value ++ rest) inputSize = .ok ((bytes value).length, value) := by
  obtain ⟨decoded, step, sum⟩ :=
    decodeFrom_groups 9 value rest inputSize 0 0 0 (enough_fuel value) told
    (by simp) (by simpa using value.toNat_lt) (by decide)
  have same : decoded = value := UInt64.toNat_inj.mp (by simpa using sum)
  simpa [decode, bytes, maxSize, same] using step

/-- The size of the integer at the front of some bytes: up to the first byte without a
continuation bit among the first `left`. -/
def terminator : Nat → Bytes → Option Nat
  | 0, _ => none
  | _ + 1, [] => none
  | left + 1, byte :: rest =>
    if byte.toNat < 128 then some 1 else (terminator left rest).map (· + 1)

theorem terminator_bounds {left : Nat} {input : Bytes} {size : Nat}
    (found : terminator left input = some size) :
    1 ≤ size ∧ size ≤ input.length := by
  induction left generalizing input size with
  | zero => cases found
  | succ left ih =>
    cases input with
    | nil => cases found
    | cons byte rest =>
      rw [terminator] at found
      split at found
      · cases found
        simp
      · obtain ⟨tail, inRest, rfl⟩ := Option.map_eq_some_iff.mp found
        have bounds := ih inRest
        simp only [List.length_cons]
        omega

/-- What the loop does, by the bytes it may read: `size` of those that lie ahead. -/
theorem decodeFrom_cases (left : Nat) (input : Bytes) (size shift : Nat)
    (gathered : UInt64) (consumed : Nat) :
    (∃ used value, terminator left (input.take size) = some used ∧
      decodeFrom left input size shift gathered consumed = .ok (consumed + used, value)) ∨
    (terminator left (input.take size) = none ∧
      (left ≤ (input.take size).length ∨ size ≤ input.length) ∧
      ∃ value, decodeFrom left input size shift gathered consumed = .ok (0, value)) ∨
    (terminator left (input.take size) = none ∧
      ¬ (left ≤ (input.take size).length ∨ size ≤ input.length) ∧
      decodeFrom left input size shift gathered consumed = .error .fault) := by
  induction left generalizing input size shift gathered consumed with
  | zero => exact .inr (.inl ⟨rfl, .inl (Nat.zero_le _), gathered, rfl⟩)
  | succ left ih =>
    cases size with
    | zero => exact .inr (.inl ⟨rfl, .inr (Nat.zero_le _), gathered, rfl⟩)
    | succ size =>
      cases input with
      | nil => exact .inr (.inr ⟨rfl, by simp, rfl⟩)
      | cons byte rest =>
        rw [decodeFrom_cons (Nat.succ_pos size), List.take_succ_cons, terminator]
        by_cases last : byte.toNat < 128
        · left
          rw [if_pos last, if_pos ((and_high_eq_zero byte).mpr last)]
          exact ⟨1, _, rfl, rfl⟩
        · rw [if_neg last, if_neg (fun zero => last ((and_high_eq_zero byte).mp zero)),
            show size.succ - 1 = size from rfl]
          simp only [List.length_cons, Nat.add_le_add_iff_right,
            Option.map_eq_none_iff, Option.map_eq_some_iff]
          rcases ih rest size (shift + 7)
            (gathered ||| ((byte &&& 0x7F).toUInt64 <<< UInt64.ofNat shift)) (consumed + 1)
            with ⟨used, value, found, decoded⟩ | stopped | faulted
          · refine .inl ⟨used + 1, value, ⟨used, found, rfl⟩, ?_⟩
            rw [decoded, Nat.add_assoc, Nat.add_comm 1 used]
          · exact .inr (.inl stopped)
          · exact .inr (.inr faulted)

/-- The size of the integer at the front, if one is complete within ten bytes. -/
def frontSize (input : Bytes) : Option Nat := terminator maxSize input

theorem decode_cases (input : Bytes) (size : Nat) :
    (∃ used value, frontSize (input.take size) = some used ∧
      decode input size = .ok (used, value)) ∨
    (frontSize (input.take size) = none ∧
      (maxSize ≤ (input.take size).length ∨ size ≤ input.length) ∧
      ∃ value, decode input size = .ok (0, value)) ∨
    (frontSize (input.take size) = none ∧
      ¬ (maxSize ≤ (input.take size).length ∨ size ≤ input.length) ∧
      decode input size = .error .fault) := by
  have outcome := decodeFrom_cases maxSize input size 0 0 0
  rw [decode, frontSize]
  simpa only [Nat.zero_add] using outcome

end VarIntU

namespace ZigZag

def encode (value : Int64) : UInt64 := ((value <<< 1) ^^^ (value >>> 63)).toUInt64

def decode (value : UInt64) : Int64 := ((value >>> 1) ^^^ (-(value &&& 1))).toInt64

/-- Negating the lowest bit spreads it over the whole word. -/
theorem getLsbD_neg_lowBit (word : BitVec 64) {i : Nat} (inside : i < 64) :
    (-(word &&& 1#64)).getLsbD i = word.getLsbD 0 := by
  rw [BitVec.and_one_eq_setWidth_ofBool_getLsbD]
  cases word.getLsbD 0 with
  | false => simp
  | true =>
    change (-(1#64)).getLsbD i = true
    rw [show -(1#64) = BitVec.allOnes 64 from rfl, BitVec.getLsbD_allOnes]
    simp [inside]

theorem getLsbD_sign (word : BitVec 64) {i : Nat} (inside : i < 64) :
    (word.sshiftRight 63).getLsbD i = word.msb := by
  rw [BitVec.getLsbD_sshiftRight]
  by_cases first : i = 0
  · subst first
    simp [BitVec.msb_eq_getLsbD_last]
  · simp [show ¬ 63 + i < 64 by omega, show ¬ 64 ≤ i by omega]

theorem word_decode_encode (word : BitVec 64) :
    (word <<< 1 ^^^ word.sshiftRight 63) >>> 1 ^^^
      -((word <<< 1 ^^^ word.sshiftRight 63) &&& 1#64) = word := by
  apply BitVec.eq_of_getLsbD_eq
  intro i inside
  rw [BitVec.getLsbD_xor, getLsbD_neg_lowBit _ inside, BitVec.getLsbD_ushiftRight,
    BitVec.getLsbD_xor, BitVec.getLsbD_xor, getLsbD_sign word (show 0 < 64 by decide)]
  by_cases last : i = 63
  · subst last
    simp [BitVec.msb_eq_getLsbD_last]
  · rw [getLsbD_sign word (by omega), BitVec.getLsbD_eq_getElem inside]
    simp [show 1 + i < 64 by omega]

theorem decode_encoded (value : Int64) : decode (encode value) = value := by
  apply Int64.toBitVec_inj.mp
  simpa [decode, encode] using word_decode_encode value.toBitVec

end ZigZag

end VectorTick.Codec
