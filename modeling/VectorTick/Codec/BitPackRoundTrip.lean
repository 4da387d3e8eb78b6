import VectorTick.Codec.BitPack

/-! The round trip of bit packing, for every width and count.

Both sides compute the packed size in `usize`. Where the number of bits wraps, the bytes behind
the returned size decide what is decoded.
-/

set_option autoImplicit false

namespace VectorTick.Codec.BitPackU32

open Foundation

theorem two_pow_countBits_le {value : UInt32} (fuel : Nat) (positive : 0 < countBits fuel value) :
    2 ^ (countBits fuel value - 1) ≤ value.toNat := by
  induction fuel generalizing value with
  | zero => simp [countBits] at positive
  | succ fuel ih =>
    rw [countBits] at positive ⊢
    split at positive
    · next some =>
      rw [if_pos some]
      have one := UInt32.lt_iff_toNat_lt.mp some
      rw [UInt32.toNat_zero] at one
      by_cases more : 0 < countBits fuel (value >>> 1)
      · have half := ih more
        rw [toNat_shiftRight_one] at half
        have double := Nat.two_pow_pred_mul_two more
        rw [Nat.add_sub_cancel_left]
        omega
      · rw [Nat.eq_zero_of_not_pos more]
        exact one
    · cases positive

theorem two_pow_bitsRequired_le {maxValue : UInt32} (more : 1 < bitsRequired maxValue) :
    2 ^ (bitsRequired maxValue - 1) ≤ maxValue.toNat := by
  rw [bitsRequired] at more ⊢
  split at more
  · cases more
    contradiction
  · next nonzero =>
    rw [if_neg nonzero]
    exact two_pow_countBits_le 32 (by omega)

/-- A width represents every value up to a bound. -/
def Represents (maxValue : UInt32) (width : Nat) : Prop :=
  1 ≤ width ∧ width ≤ 32 ∧ ∀ value ≤ maxValue, value.toNat < 2 ^ width

theorem bitsRequired_least (maxValue : UInt32) :
    Represents maxValue (bitsRequired maxValue) ∧ ∀ width, Represents maxValue width →
      bitsRequired maxValue ≤ width := by
  constructor
  · refine ⟨bitsRequired_pos maxValue, bitsRequired_le maxValue, fun value below => ?_⟩
    exact Nat.lt_of_le_of_lt (UInt32.le_iff_toNat_le.mp below) (lt_two_pow_bitsRequired maxValue)
  · intro width represents
    by_contra narrower
    have top := represents.2.2 maxValue (UInt32.le_refl maxValue)
    have taken :=
      two_pow_bitsRequired_le (by have := represents.1; omega : 1 < bitsRequired maxValue)
    have widths : 2 ^ width ≤ 2 ^ (bitsRequired maxValue - 1) :=
      Nat.pow_le_pow_right (by decide) (by omega)
    omega

theorem testBit_window {window : UInt64} {bits shift j : Nat}
    (narrow : bits ≤ 32) (inByte : shift < 8)
    (inValue : j < bits) :
    ((window >>> UInt64.ofNat shift).toUInt32 &&& mask bits).toNat.testBit j =
      window.toNat.testBit (shift + j) := by
  have amount : (UInt64.ofNat shift).toNat % 64 = shift := by
    rw [UInt64.toNat_ofNat']
    omega
  rw [toNat_and_mask _ narrow, UInt64.toNat_toUInt32, UInt64.toNat_shiftRight, amount,
    Nat.mod_mod_of_dvd _ (Nat.pow_dvd_pow 2 narrow), Nat.shiftRight_eq_div_pow,
    Nat.testBit_mod_two_pow, Nat.testBit_div_two_pow, decide_eq_true inValue, Bool.true_and,
    Nat.add_comm]

theorem decodeLoop_shows {input : Bytes} {inputSize bits : Nat} (present : inputSize ≤ input.length)
    (narrow : bits ≤ 32) {left bitOffset i j : Nat} {values : List UInt32}
    (decoded : decodeLoop input inputSize bits left bitOffset = .ok values) (index : i < left)
    (word : bitOffset + i * bits < 2 ^ 64) (inValue : j < bits)
    (inside : (bitOffset + i * bits + j) / 8 < inputSize) :
    (values.getD i 0).toNat.testBit j = bitAt input (bitOffset + i * bits + j) := by
  induction left generalizing bitOffset i values with
  | zero => omega
  | succ left ih =>
    obtain ⟨window, read, shown⟩ :=
      windowFrom_bits (bitOffset / 8) present 8 0 0 (by decide) (by simp)
    rw [decodeLoop, read, ok_bind] at decoded
    cases loop : decodeLoop input inputSize bits left ((bitOffset + bits) % 2 ^ 64) with
    | error stop =>
      rw [loop, error_bind] at decoded
      cases decoded
    | ok rest =>
      rw [loop, ok_bind] at decoded
      cases decoded
      cases i with
      | zero =>
        rw [Nat.zero_mul, Nat.add_zero] at inside ⊢
        have position : 8 * (bitOffset / 8) + (bitOffset % 8 + j) = bitOffset + j := by omega
        rw [List.getD_cons_zero, testBit_window narrow (Nat.mod_lt _ (by decide)) inValue, shown,
          position, decide_eq_true (by omega), Bool.true_and]
      | succ i =>
        have shift : bitOffset + (i + 1) * bits = bitOffset + bits + i * bits := by ring
        rw [shift] at word inside ⊢
        have next : (bitOffset + bits) % 2 ^ 64 = bitOffset + bits := Nat.mod_eq_of_lt (by omega)
        rw [next] at loop
        rw [List.getD_cons_succ]
        exact ih loop (by omega) word inside

def RoundTrips (values : List UInt32) (bits : Nat) : Prop :=
  ∀ outputSize, maxEncodedSize values.length bits ≤ outputSize → ∀ rest : Bytes,
    let stored := encode values bits outputSize
    stored.bytes.length = stored.size ∧
      decode (stored.bytes ++ rest) (stored.bytes.length + rest.length) bits values.length =
        .ok (stored.size, values)

theorem roundTrips_of_lt {values : List UInt32} {bits : Nat} (wide : 1 ≤ bits) (narrow : bits ≤ 32)
    (small : ∀ value ∈ values, value.toNat < 2 ^ bits) (word : values.length * bits + 7 < 2 ^ 64) :
    RoundTrips values bits := by
  intro outputSize fits rest
  rw [encode_fits values outputSize wide narrow fits]
  refine ⟨length_bytes values bits, ?_⟩
  rw [length_bytes]
  exact decode_bytes values bits _ rest wide narrow small (by omega) (by omega) word

theorem wrapped_size {count bits : Nat} (wide : 1 ≤ bits) (wraps : 2 ^ 64 ≤ count * bits + 7) :
    8 * maxEncodedSize count bits < count * bits ∧ 8 * maxEncodedSize count bits < 2 ^ 64 := by
  rw [maxEncodedSize, if_neg (by omega)]
  omega

theorem not_roundTrips_of_wraps {values : List UInt32} {bits : Nat}
    (wide : 1 ≤ bits) (narrow : bits ≤ 32)
    (wraps : 2 ^ 64 ≤ values.length * bits + 7) : ¬ RoundTrips values bits := by
  intro roundTrips
  obtain ⟨cut, word⟩ := wrapped_size wide wraps
  -- The first bit behind the encoding belongs to a value.
  have place := Nat.div_add_mod' (8 * maxEncodedSize values.length bits) bits
  have inValue : 8 * maxEncodedSize values.length bits % bits < bits := Nat.mod_lt _ (by omega)
  have index : 8 * maxEncodedSize values.length bits / bits < values.length := by
    rw [Nat.div_lt_iff_lt_mul (by omega)]
    exact cut
  have shows
      (byte : UInt8) : (values.getD (8 * maxEncodedSize values.length bits / bits) 0).toNat.testBit
      (8 * maxEncodedSize values.length bits % bits) = byte.toNat.testBit 0 := by
    have decoded := (roundTrips _ (Nat.le_refl _) [byte]).2
    rw [encode_fits values _ wide narrow (Nat.le_refl _)] at decoded
    rw [decode] at decoded
    split at decoded
    · have lost : [] = values := congrArg Prod.snd (Except.ok.inj decoded)
      rw [← lost] at index
      cases index
    · rw [if_neg (by omega)] at decoded
      cases loop : decodeLoop (bytes values bits ++ [byte])
        ((bytes values bits).length + [byte].length) bits
        values.length 0 with
      | error stop =>
        rw [loop, error_bind] at decoded
        cases decoded
      | ok found =>
        rw [loop, ok_bind] at decoded
        have same : found = values := congrArg Prod.snd (Except.ok.inj decoded)
        rw [same, length_bytes] at loop
        have read := decodeLoop_shows (by simp) narrow loop index (by omega) inValue
          (by rw [Nat.zero_add, place, List.length_singleton]; omega)
        rw [read, Nat.zero_add, place, bitAt, Nat.mul_div_cancel_left _ (by decide),
          Nat.mul_mod_right, List.getD_eq_getElem?_getD,
          List.getElem?_append_right (by rw [length_bytes]), length_bytes, Nat.sub_self]
        rfl
  have clear := shows 0
  rw [shows 1] at clear
  cases clear

/-- Bit packing is a round trip exactly where the number of bits, rounded up, is a `usize`. -/
theorem roundTrips_iff {bits : Nat} (wide : 1 ≤ bits) (narrow : bits ≤ 32) {values : List UInt32}
    (small : ∀ value ∈ values, value.toNat < 2 ^ bits) :
    RoundTrips values bits ↔ values.length * bits + 7 < 2 ^ 64 := by
  refine ⟨fun roundTrips => ?_, roundTrips_of_lt wide narrow small⟩
  by_contra wraps
  exact not_roundTrips_of_wraps wide narrow (Nat.not_lt.mp wraps) roundTrips

/-- Bit packing is a round trip for every list that memory can hold, and the chosen width is the
least one. -/
theorem roundTrips_held (bits : Nat) (wide : 1 ≤ bits) (narrow : bits ≤ 32) (values : List UInt32)
    (held : values.length < 2 ^ 59) (small : ∀ value ∈ values, value.toNat < 2 ^ bits) :
    RoundTrips values bits ∧ ∀ maxValue, Represents maxValue (bitsRequired maxValue) ∧
      ∀ width, Represents maxValue width → bitsRequired maxValue ≤ width := by
  refine ⟨(roundTrips_iff wide narrow small).mpr ?_, bitsRequired_least⟩
  have size : values.length * bits ≤ (2 ^ 59 - 1) * 32 := Nat.mul_le_mul (by omega) narrow
  omega

theorem roundTrips_held_three : RoundTrips [5, 0, 7] 3 ∧
    ∀ maxValue, Represents maxValue (bitsRequired maxValue) ∧
    ∀ width, Represents maxValue width → bitsRequired maxValue ≤ width :=
  roundTrips_held 3 (by decide) (by decide) [5, 0, 7] (by decide) (by simp)

end VectorTick.Codec.BitPackU32
