import VectorTick.Common.CrcDetection
import VectorTick.Foundation.BitView
import VectorTick.Foundation.ShiftRegister

/-! The checksum as a remainder: the table does eight steps of the
division by the polynomial at once.

A difference of at most 32 bits is never divided away, wherever it stands in the message. -/

set_option autoImplicit false

namespace VectorTick.Crc32C

open Foundation

/-- One bit of the message through the division by the reflected polynomial. -/
def bitStep (crc : UInt32) (bit : Bool) : UInt32 :=
  if xor (crc &&& 1 = 1) bit then (crc >>> 1) ^^^ polynomial else crc >>> 1

/-- The remainder bit by bit, the least significant bit of each byte first. -/
def remainder (initCrc : UInt32) (data : Bytes) : UInt32 := (bits data).foldl bitStep initCrc

theorem shiftBits_even (crc : BitVec 32) (even : crc.getLsbD 0 = false) :
    shiftBits crc = crc >>> 1 := by
  rw [shiftBits, even, if_neg Bool.false_ne_true, BitVec.xor_zero]

def castagnoli : ShiftRegister 32 :=
  ⟨shiftBits, shiftBits_xor, shiftBits_even, fun _ => shiftBits_eq_zero⟩

theorem toBitVec_bitStep (crc : UInt32) (bit : Bool) :
    (bitStep crc bit).toBitVec = castagnoli.feed crc.toBitVec bit := by
  have low : decide (crc &&& 1 = 1) = crc.toBitVec.getLsbD 0 := by
    have masked : (crc &&& 1).toBitVec = (BitVec.ofBool (crc.toBitVec.getLsbD 0)).setWidth 32 :=
      BitVec.and_one_eq_setWidth_ofBool_getLsbD
    rw [Bool.eq_iff_iff, decide_eq_true_iff, ← UInt32.toBitVec_inj, masked]
    cases crc.toBitVec.getLsbD 0 <;> decide
  have shifted : (crc.toBitVec ^^^ if bit then 1#32 else 0#32) >>> 1 = crc.toBitVec >>> 1 := by
    rw [BitVec.ushiftRight_xor_distrib]
    cases bit <;> simp
  have bottom : (crc.toBitVec ^^^ if bit then 1#32 else 0#32).getLsbD 0 =
      xor (crc.toBitVec.getLsbD 0) bit := by
    rw [BitVec.getLsbD_xor]
    cases bit <;> simp
  change _ = shiftBits _
  rw [shiftBits, shifted, bottom, bitStep, low]
  by_cases one : xor (crc.toBitVec.getLsbD 0) bit = true
  · rw [if_pos one, if_pos one]
    rfl
  · rw [if_neg one, if_neg one, BitVec.xor_zero]
    rfl

theorem toBitVec_foldl_bitStep (message : List Bool) (crc : UInt32) :
    (message.foldl bitStep crc).toBitVec = message.foldl castagnoli.feed crc.toBitVec := by
  induction message generalizing crc with
  | nil => rfl
  | cons bit rest ih => rw [List.foldl_cons, List.foldl_cons, ih, toBitVec_bitStep]

theorem wordOf_byteBits (byte : UInt8) : wordOf 32 (byteBits byte) = byte.toUInt32.toBitVec := by
  apply BitVec.eq_of_getLsbD_eq
  intro i inside
  rw [getLsbD_wordOf _ inside, UInt8.toBitVec_toUInt32, BitVec.getLsbD_setWidth]
  by_cases here : i < 8
  · simp [byteBits, here, inside, BitVec.getLsbD]
  · rw [BitVec.getLsbD_of_ge _ _ (by omega), Bool.and_false]
    simp [byteBits, here]

theorem byteStep_bits (crc : UInt32) (byte : UInt8) :
    byteStep crc byte = (byteBits byte).foldl bitStep crc := by
  apply UInt32.toBitVec_inj.mp
  rw [toBitVec_foldl_bitStep, castagnoli.foldl_feed _ (by simp), length_byteBits, wordOf_byteBits,
    byteStep_eq, toBitVec_table]
  rfl

theorem remainder_append (crc : UInt32) (first second : Bytes) :
    remainder crc (first ++ second) = remainder (remainder crc first) second := by
  unfold remainder bits
  rw [List.flatMap_append, List.foldl_append]

theorem remainder_cons (crc : UInt32) (byte : UInt8) (rest : Bytes) :
    remainder crc (byte :: rest) = remainder (byteStep crc byte) rest := by
  rw [byteStep_bits]
  unfold remainder bits
  rw [List.flatMap_cons, List.foldl_append]

theorem computeSw_eq (crc : UInt32) (data : Bytes) : computeSw crc data = remainder crc data := by
  induction data generalizing crc with
  | nil => rfl
  | cons byte rest ih =>
    rw [remainder_cons, ← ih]
    rfl

theorem computeFrom_eq (crc : UInt32) (data : Bytes) :
    computeFrom crc data = remainder (crc ^^^ 0xFFFFFFFF) data ^^^ 0xFFFFFFFF := by
  unfold computeFrom
  by_cases empty : data = []
  · rw [if_pos empty, empty]
    change crc = crc ^^^ 0xFFFFFFFF ^^^ 0xFFFFFFFF
    rw [UInt32.xor_assoc, UInt32.xor_self, UInt32.xor_zero]
  · rw [if_neg empty, computeSw_eq]

/-- Messages of one length that differ, but only within 32 consecutive
bits, have different checksums. -/
theorem computeFrom_burst (crc : UInt32) {first second : Bytes}
    (same : first.length = second.length)
    (differ : first ≠ second) {start : Nat}
    (burst : ∀ k, bitAt first k ≠ bitAt second k → start ≤ k ∧ k < start + 32) :
    computeFrom crc first ≠ computeFrom crc second := by
  have lengths : (bits first).length = (bits second).length := by
    rw [length_bits, length_bits, same]
  have shown : ∀ k, (List.zipWith xor (bits first) (bits second))[k]? = some true →
      bitAt first k ≠ bitAt second k := by
    intro k found
    have inside := (List.getElem?_eq_some_iff.mp found).1
    rw [List.length_zipWith, ← lengths, Nat.min_self, length_bits] at inside
    rw [List.getElem?_zipWith, getElem?_bits first inside,
      getElem?_bits second (same ▸ inside)] at found
    exact Bool.xor_iff_ne.mp (Option.some.inj found)
  have some : true ∈ List.zipWith xor (bits first) (bits second) := by
    by_contra none
    refine differ (eq_of_bitAt same fun k inside => ?_)
    by_contra other
    refine none (List.mem_iff_getElem?.mpr ⟨k, ?_⟩)
    rw [List.getElem?_zipWith, getElem?_bits first inside, getElem?_bits second (same ▸ inside)]
    exact congrArg Option.some (Bool.xor_iff_ne.mpr other)
  have left := castagnoli.foldl_feed_burst some fun k found => burst k (shown k found)
  intro collide
  rw [computeFrom_eq, computeFrom_eq] at collide
  have registers := congrArg UInt32.toBitVec (xor_cancel collide)
  unfold remainder at registers
  rw [toBitVec_foldl_bitStep, toBitVec_foldl_bitStep] at registers
  refine left ?_
  have difference :=
    castagnoli.foldl_feed_xor lengths (crc ^^^ 0xFFFFFFFF).toBitVec (crc ^^^ 0xFFFFFFFF).toBitVec
  rwa [BitVec.xor_self, registers, BitVec.xor_self] at difference

theorem computeFrom_burst_across : computeFrom 0 [0, 128, 1, 255, 3] ≠
    computeFrom 0 [0, 0, 0, 0, 4] := by
  refine @computeFrom_burst 0 _ _ rfl (by decide) 15 fun k other => ?_
  have before : ∀ k < 15, bitAt [0, 128, 1, 255, 3] k = bitAt [0, 0, 0, 0, 4] k := by decide
  have behind : ∀ bytes : Bytes, bytes.length = 5 → 47 ≤ k → bitAt bytes k = false := by
    intro bytes size far
    rw [bitAt, List.getD_eq_getElem?_getD, List.getElem?_eq_none (by omega), Option.getD_none]
    exact Nat.zero_testBit _
  by_contra outside
  by_cases early : k < 15
  · exact other (before k early)
  · exact other ((behind _ rfl (by omega)).trans (behind _ rfl (by omega)).symm)

end VectorTick.Crc32C
