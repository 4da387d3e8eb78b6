import VectorTick.Codec.VarInt
import VectorTick.Foundation.BitView

/-! Frame-of-reference bit packing of 32-bit values. -/

set_option autoImplicit false

namespace VectorTick.Codec.BitPackU32

open Foundation

/-- The `while (max_value > 0)` loop. -/
def countBits : Nat → UInt32 → Nat
  | 0, _ => 0
  | fuel + 1, value => if value > 0 then 1 + countBits fuel (value >>> 1) else 0

def bitsRequired (maxValue : UInt32) : Nat := if maxValue = 0 then 1 else countBits 32 maxValue

/-- The size in bytes; the product and its rounding are `usize` arithmetic. -/
def maxEncodedSize (numValues bits : Nat) : Nat :=
  if bits = 0 then 0 else (numValues * bits % 2 ^ 64 + 7) % 2 ^ 64 / 8

def mask (bits : Nat) : UInt32 := if bits = 32 then 0xFFFFFFFF else (1 <<< UInt32.ofNat bits) - 1

/-- Or the bytes of one shifted value into the output, leaving out those past its end. -/
def packValue (bits required : Nat) (out : Bytes) (bitOffset : Nat) (value : UInt32) : Bytes :=
  let shifted := (value &&& mask bits).toUInt64 <<< UInt64.ofNat (bitOffset % 8)
  (List.range ((bitOffset % 8 + bits + 7) / 8)).foldl (fun out b =>
    if bitOffset / 8 + b < required then
      out.modify (bitOffset / 8 + b) (· ||| ((shifted >>> UInt64.ofNat (b * 8)) &&& 0xFF).toUInt8)
    else out) out

def encodeLoop (bits required : Nat) : List UInt32 → Nat → Bytes → Bytes
  | [], _, out => out
  | value :: rest, bitOffset, out =>
    encodeLoop bits required rest ((bitOffset + bits) % 2 ^ 64)
      (packValue bits required out bitOffset value)

def encode (values : List UInt32) (bits outputSize : Nat) : Stored :=
  let required := maxEncodedSize values.length bits
  if outputSize < required then ⟨[], 0⟩
  else if bits = 0 ∨ bits > 32 then ⟨[], 0⟩
  else ⟨encodeLoop bits required values 0 (List.replicate required 0), required⟩

/-- The inner loop over the eight bytes of a window; it ends at the declared input size. -/
def windowFrom (input : Bytes) (inputSize byteOffset : Nat) :
    Nat → Nat → UInt64 → Except Stop UInt64
  | 0, _, window => .ok window
  | left + 1, j, window =>
    if byteOffset + j < inputSize then
      match input[byteOffset + j]? with
      | none => .error .fault
      | some byte =>
        windowFrom input inputSize byteOffset left (j + 1)
          (window ||| (byte.toUInt64 <<< UInt64.ofNat (j * 8)))
    else .ok window

def decodeLoop (input : Bytes) (inputSize bits : Nat) : Nat → Nat → Except Stop (List UInt32)
  | 0, _ => .ok []
  | left + 1, bitOffset => do
    let window ← windowFrom input inputSize (bitOffset / 8) 8 0 0
    let value := (window >>> UInt64.ofNat (bitOffset % 8)).toUInt32 &&& mask bits
    let rest ← decodeLoop input inputSize bits left ((bitOffset + bits) % 2 ^ 64)
    return value :: rest

/-- The returned size and the values; `required_bits` and its rounding are `usize` arithmetic. -/
def decode (input : Bytes) (inputSize bits numValues : Nat) : Except Stop (Nat × List UInt32) :=
  let requiredBits := numValues * bits % 2 ^ 64
  let requiredBytes := (requiredBits + 7) % 2 ^ 64 / 8
  if inputSize < requiredBytes then .ok (0, [])
  else if bits = 0 ∨ bits > 32 then .ok (0, [])
  else do
    let values ← decodeLoop input inputSize bits numValues 0
    return (requiredBytes, values)

theorem maxEncodedSize_eq {numValues bits : Nat} (wide : 1 ≤ bits)
    (fits : numValues * bits + 7 < 2 ^ 64) :
    maxEncodedSize numValues bits = (numValues * bits + 7) / 8 := by
  rw [maxEncodedSize, if_neg (by omega), Nat.mod_eq_of_lt (by omega : numValues * bits < 2 ^ 64),
    Nat.mod_eq_of_lt fits]

theorem maxEncodedSize_le (numValues bits : Nat) :
    maxEncodedSize numValues bits ≤ (numValues * bits + 7) / 8 := by
  have product := Nat.mod_le (numValues * bits) (2 ^ 64)
  have rounded := Nat.mod_le (numValues * bits % 2 ^ 64 + 7) (2 ^ 64)
  rw [maxEncodedSize]
  split <;> omega

/-- The loops' running offset does not wrap before its last value. -/
theorem next_offset {bitOffset count bits : Nat} (word : bitOffset + (count + 1) * bits < 2 ^ 64) :
    (bitOffset + bits) % 2 ^ 64 = bitOffset + bits := by
  rw [Nat.succ_mul] at word
  exact Nat.mod_eq_of_lt (by omega)

theorem toNat_shiftRight_one (value : UInt32) : (value >>> 1).toNat = value.toNat / 2 := by
  rw [UInt32.toNat_shiftRight]
  simp [Nat.shiftRight_eq_div_pow]

theorem countBits_le (fuel : Nat) (value : UInt32) : countBits fuel value ≤ fuel := by
  induction fuel generalizing value with
  | zero => simp [countBits]
  | succ fuel ih =>
    have half := ih (value >>> 1)
    rw [countBits]
    split <;> omega

theorem countBits_pos {value : UInt32} (nonzero : value ≠ 0) (fuel : Nat) :
    0 < countBits (fuel + 1) value := by
  rw [countBits, if_pos (UInt32.pos_iff_ne_zero.mpr nonzero)]
  omega

theorem lt_two_pow_countBits (fuel : Nat) (value : UInt32) (enough : value.toNat < 2 ^ fuel) :
    value.toNat < 2 ^ countBits fuel value := by
  induction fuel generalizing value with
  | zero => simpa [countBits] using enough
  | succ fuel ih =>
    have half : (value >>> 1).toNat < 2 ^ fuel := by
      rw [toNat_shiftRight_one]
      omega
    have bound := ih _ half
    rw [toNat_shiftRight_one] at bound
    rw [countBits]
    split
    · rw [Nat.pow_add]
      omega
    · rename_i zero
      have none : value = 0 := by
        by_contra nonzero
        exact zero (UInt32.pos_iff_ne_zero.mpr nonzero)
      simp [none]

theorem bitsRequired_pos (maxValue : UInt32) : 1 ≤ bitsRequired maxValue := by
  unfold bitsRequired
  split
  · exact Nat.le_refl 1
  · exact countBits_pos ‹_› 31

theorem bitsRequired_le (maxValue : UInt32) : bitsRequired maxValue ≤ 32 := by
  unfold bitsRequired
  split
  · decide
  · exact countBits_le 32 maxValue

theorem lt_two_pow_bitsRequired (maxValue : UInt32) :
    maxValue.toNat < 2 ^ bitsRequired maxValue := by
  unfold bitsRequired
  split
  · rename_i zero
    simp [zero]
  · exact lt_two_pow_countBits 32 maxValue maxValue.toNat_lt

theorem toNat_mask {bits : Nat} (narrow : bits ≤ 32) : (mask bits).toNat = 2 ^ bits - 1 := by
  have widths : ∀ width : Fin 33, (mask width.val).toNat = 2 ^ width.val - 1 := by decide
  exact widths ⟨bits, by omega⟩

theorem toNat_and_mask (value : UInt32) {bits : Nat} (narrow : bits ≤ 32) :
    (value &&& mask bits).toNat = value.toNat % 2 ^ bits := by
  rw [UInt32.toNat_and, toNat_mask narrow, Nat.and_two_pow_sub_one_eq_mod]

theorem length_packValue (bits required : Nat) (out : Bytes) (bitOffset : Nat) (value : UInt32) :
    (packValue bits required out bitOffset value).length = out.length := by
  apply length_foldl
  intro out index
  split <;> simp

theorem length_encodeLoop (bits required : Nat) (values : List UInt32)
    (bitOffset : Nat) (out : Bytes) :
    (encodeLoop bits required values bitOffset out).length = out.length := by
  induction values generalizing bitOffset out with
  | nil => rfl
  | cons value rest ih => rw [encodeLoop, ih, length_packValue]

/-- Or-ing the first `count` bytes of a word in at a byte offset. -/
theorem bitAt_orBytes (word : UInt64) (start required : Nat) (out : Bytes)
    (size : out.length = required)
    (count : Nat) (short : count ≤ 8) {k : Nat} (inside : k / 8 < required) :
    bitAt ((List.range count).foldl (fun out b =>
        if start + b < required then
          out.modify (start + b) (· ||| ((word >>> UInt64.ofNat (b * 8)) &&& 0xFF).toUInt8)
        else out) out) k =
      (bitAt out k || (decide (start ≤ k / 8 ∧
        k / 8 < start + count) && word.toNat.testBit (k - 8 * start))) := by
  induction count with
  | zero =>
    rw [decide_eq_false (by omega : ¬ (start ≤ k / 8 ∧ k / 8 < start + 0))]
    simp
  | succ count ih =>
    rw [List.range_succ, List.foldl_append, List.foldl_cons, List.foldl_nil]
    have length : ((List.range count).foldl (fun out b =>
        if start + b < required then
          out.modify (start + b) (· ||| ((word >>> UInt64.ofNat (b * 8)) &&& 0xFF).toUInt8)
        else out) out).length = required := by
      rw [← size]
      apply length_foldl
      intro out index
      split <;> simp
    have byte : ((word >>> UInt64.ofNat (count * 8)) &&& 0xFF).toUInt8.toNat =
        word.toNat / 2 ^ (8 * count) % 256 := by
      have amount : (UInt64.ofNat (count * 8)).toNat % 64 = 8 * count := by
        rw [UInt64.toNat_ofNat']
        omega
      have low : (0xFF : UInt64).toNat = 2 ^ 8 - 1 := rfl
      rw [UInt64.toNat_toUInt8, UInt64.toNat_and, UInt64.toNat_shiftRight, amount, low,
        Nat.and_two_pow_sub_one_eq_mod, Nat.shiftRight_eq_div_pow]
      omega
    have earlier := ih (by omega)
    split
    · rw [bitAt_modify_or _ _ _ (by rwa [length]), earlier, byte,
        testBit_byte _ _ (Nat.mod_lt _ (by decide))]
      by_cases here : k / 8 = start + count
      · have index : 8 * count + k % 8 = k - 8 * start := by omega
        rw [index, decide_eq_true here,
          decide_eq_false (by omega : ¬ (start ≤ k / 8 ∧ k / 8 < start + count)),
          decide_eq_true (by omega : start ≤ k / 8 ∧ k / 8 < start + (count + 1))]
        simp
      · have same : (start ≤ k / 8 ∧ k / 8 < start + count) ↔
            (start ≤ k / 8 ∧ k / 8 < start + (count + 1)) := by
          omega
        simp only [here, same, decide_false, Bool.false_and, Bool.or_false]
    · have same : (start ≤ k / 8 ∧ k / 8 < start + count) ↔
          (start ≤ k / 8 ∧ k / 8 < start + (count + 1)) := by
        omega
      simp only [earlier, same]

theorem bitAt_packValue {bits required : Nat} (narrow : bits ≤ 32) (out : Bytes)
    (size : out.length = required)
    (bitOffset : Nat) (value : UInt32) (small : value.toNat < 2 ^ bits) {k : Nat}
    (inside : k / 8 < required) :
    bitAt (packValue bits required out bitOffset value) k =
      (bitAt out k || (decide (bitOffset ≤ k) && value.toNat.testBit (k - bitOffset))) := by
  have masked : (value &&& mask bits).toUInt64.toNat = value.toNat := by
    rw [UInt32.toNat_toUInt64, toNat_and_mask value narrow, Nat.mod_eq_of_lt small]
  have shifted : ((value &&& mask bits).toUInt64 <<< UInt64.ofNat (bitOffset % 8)).toNat =
      value.toNat * 2 ^ (bitOffset % 8) := by
    have amount : (UInt64.ofNat (bitOffset % 8)).toNat % 64 = bitOffset % 8 := by
      rw [UInt64.toNat_ofNat']
      omega
    have word : value.toNat * 2 ^ (bitOffset % 8) < 2 ^ 64 := by
      have scale : 2 ^ (bitOffset % 8) ≤ 2 ^ 7 := Nat.pow_le_pow_right (by decide) (by omega)
      have := Nat.mul_le_mul (Nat.le_of_lt value.toNat_lt) scale
      omega
    rw [UInt64.toNat_shiftLeft, amount, masked, Nat.shiftLeft_eq, Nat.mod_eq_of_lt word]
  rw [packValue, bitAt_orBytes _ _ _ out size _ (by omega) inside, shifted, Nat.testBit_mul_two_pow]
  congr 1
  have place : k - 8 * (bitOffset / 8) - bitOffset % 8 = k - bitOffset := by omega
  rw [place]
  by_cases covered : bitOffset ≤ k ∧ k < bitOffset + bits
  · have bytes : bitOffset / 8 ≤ k / 8 ∧
        k / 8 < bitOffset / 8 + (bitOffset % 8 + bits + 7) / 8 := by omega
    rw [decide_eq_true bytes, decide_eq_true covered.1,
      decide_eq_true (by omega : bitOffset % 8 ≤ k - 8 * (bitOffset / 8)), Bool.true_and]
  · by_cases before : k < bitOffset
    · rw [decide_eq_false (by omega : ¬ bitOffset ≤ k)]
      by_cases sameByte : bitOffset / 8 ≤ k / 8
      · rw [decide_eq_false (by omega : ¬ bitOffset % 8 ≤ k - 8 * (bitOffset / 8))]
        simp
      · rw [decide_eq_false (fun both => sameByte both.1)]
        simp
    · rw [testBit_of_lt _ small (by omega : bits ≤ k - bitOffset)]
      simp

theorem bitAt_encodeLoop_before {bits required : Nat} (narrow : bits ≤ 32) (values : List UInt32)
    (small : ∀ value ∈ values, value.toNat < 2 ^ bits) (bitOffset : Nat)
    (word : bitOffset + values.length * bits < 2 ^ 64)
    (out : Bytes) (size : out.length = required) {k : Nat} (inside : k / 8 < required)
    (before : k < bitOffset) :
    bitAt (encodeLoop bits required values bitOffset out) k = bitAt out k := by
  induction values generalizing bitOffset out with
  | nil => rfl
  | cons value rest ih =>
    have head := small value (by simp)
    have tail : ∀ value ∈ rest, value.toNat < 2 ^ bits :=
      fun value member => small value (by simp [member])
    have later : bitOffset + bits + rest.length * bits < 2 ^ 64 := by
      rw [List.length_cons, Nat.succ_mul] at word
      omega
    rw [encodeLoop, next_offset word,
      ih tail _ later _ ((length_packValue _ _ _ _ _).trans size) (by omega),
      bitAt_packValue narrow out size bitOffset value head inside, decide_eq_false (by omega)]
    simp

/-- The packed output holds, `bits` at a time, the bits of the values. -/
theorem bitAt_encodeLoop {bits required : Nat} (narrow : bits ≤ 32) (values : List UInt32)
    (small : ∀ value ∈ values, value.toNat < 2 ^ bits) (bitOffset : Nat)
    (word : bitOffset + values.length * bits < 2 ^ 64)
    (out : Bytes) (size : out.length = required)
    (clear : ∀ k, bitOffset ≤ k → k / 8 < required → bitAt out k = false)
    {i j : Nat} {value : UInt32}
    (selected : values[i]? = some value) (inValue : j < bits)
    (inside : (bitOffset + i * bits + j) / 8 < required) :
    bitAt (encodeLoop bits required values bitOffset out) (bitOffset + i * bits + j) =
      value.toNat.testBit j := by
  induction values generalizing bitOffset out i with
  | nil => simp at selected
  | cons first rest ih =>
    have head := small first (by simp)
    have tail : ∀ value ∈ rest, value.toNat < 2 ^ bits :=
      fun value member => small value (by simp [member])
    have packed := (length_packValue bits required out bitOffset first).trans size
    have later : bitOffset + bits + rest.length * bits < 2 ^ 64 := by
      rw [List.length_cons, Nat.succ_mul] at word
      omega
    rw [encodeLoop, next_offset word]
    cases i with
    | zero =>
      have same : first = value := by simpa using selected
      subst same
      rw [Nat.zero_mul, Nat.add_zero] at inside ⊢
      rw [bitAt_encodeLoop_before narrow rest tail _ later _ packed inside (by omega),
        bitAt_packValue narrow out size bitOffset first head inside, clear _ (by omega) inside,
        decide_eq_true (by omega), Nat.add_sub_cancel_left]
      simp
    | succ i =>
      have position : bitOffset + (i + 1) * bits + j = bitOffset + bits + i * bits + j := by ring
      rw [position] at inside ⊢
      apply ih tail _ later _ packed _ (by simpa using selected) inside
      intro k beyond room
      rw [bitAt_packValue narrow out size bitOffset first head room, clear k (by omega) room,
        testBit_of_lt _ head (by omega : bits ≤ k - bitOffset)]
      simp

theorem toNat_or_byte (window : UInt64) (byte : UInt8) {j : Nat} (inWindow : j < 8) :
    (window ||| (byte.toUInt64 <<< UInt64.ofNat (j * 8))).toNat =
      window.toNat ||| byte.toNat * 2 ^ (8 * j) := by
  rw [UInt64.toNat_or, toNat_shiftLeft_word _ (by omega), UInt8.toNat_toUInt64, Nat.mul_comm j,
    Nat.mod_eq_of_lt (mul_two_pow_lt byte.toNat_lt (by omega))]

theorem bitAt_shift (input : Bytes) (byteOffset m : Nat) :
    bitAt input (8 * byteOffset + m) =
      (input.getD (byteOffset + m / 8) 0).toNat.testBit (m % 8) := by
  have index : (8 * byteOffset + m) / 8 = byteOffset + m / 8 := by omega
  have bit : (8 * byteOffset + m) % 8 = m % 8 := by omega
  rw [bitAt, index, bit]

theorem windowFrom_bits (byteOffset : Nat) {input : Bytes} {inputSize : Nat}
    (present : inputSize ≤ input.length)
    (left j : Nat) (window : UInt64) (eight : left + j = 8)
    (gathered : ∀ m, window.toNat.testBit m =
      (decide (m < 8 * j ∧ byteOffset + m / 8 < inputSize) &&
      bitAt input (8 * byteOffset + m))) :
    ∃ full, windowFrom input inputSize byteOffset left j window = .ok full ∧
      ∀ m, full.toNat.testBit m = (decide (m < 64 ∧ byteOffset + m / 8 < inputSize) &&
        bitAt input (8 * byteOffset + m)) := by
  induction left generalizing j window with
  | zero =>
    refine ⟨window, rfl, fun m => ?_⟩
    rw [gathered m, show 8 * j = 64 by omega]
  | succ left ih =>
    rw [windowFrom]
    split
    · rename_i more
      have bound : byteOffset + j < input.length := by omega
      rw [List.getElem?_eq_getElem bound]
      apply ih (j + 1) _ (by omega)
      intro m
      rw [toNat_or_byte _ _ (by omega), Nat.testBit_or, gathered m,
        Nat.testBit_mul_two_pow, bitAt_shift]
      by_cases earlier : m < 8 * j
      · rw [decide_eq_false (by omega : ¬ 8 * j ≤ m)]
        simp only [earlier, show m < 8 * (j + 1) by omega, true_and, Bool.false_and, Bool.or_false]
      · by_cases here : m < 8 * (j + 1)
        · have index : m / 8 = j := by omega
          have offset : m - 8 * j = m % 8 := by omega
          rw [decide_eq_false (by omega : ¬ (m < 8 * j ∧ byteOffset + m / 8 < inputSize)),
            decide_eq_true (by omega : 8 * j ≤ m),
            decide_eq_true (by omega : m < 8 * (j + 1) ∧ byteOffset + m / 8 < inputSize), index,
            offset, List.getD_eq_getElem?_getD, List.getElem?_eq_getElem bound]
          simp
        · have high : (input[byteOffset + j]).toNat.testBit (m - 8 * j) = false :=
            testBit_of_lt 8 (input[byteOffset + j]).toNat_lt (by omega)
          rw [high, decide_eq_false (by omega : ¬ (m < 8 * j ∧ byteOffset + m / 8 < inputSize)),
            decide_eq_false (by omega : ¬ (m < 8 * (j + 1) ∧ byteOffset + m / 8 < inputSize))]
          simp
    · rename_i done
      refine ⟨window, rfl, fun m => ?_⟩
      rw [gathered m]
      congr 1
      apply decide_eq_decide.mpr
      omega

theorem window_value {window : UInt64} {value : UInt32} {bits shift : Nat}
    (narrow : bits ≤ 32) (inByte : shift < 8)
    (small : value.toNat < 2 ^ bits)
    (shown : ∀ j, j < bits → window.toNat.testBit (shift + j) = value.toNat.testBit j) :
    (window >>> UInt64.ofNat shift).toUInt32 &&& mask bits = value := by
  have amount : (UInt64.ofNat shift).toNat % 64 = shift := by
    rw [UInt64.toNat_ofNat']
    omega
  apply UInt32.toNat_inj.mp
  rw [toNat_and_mask _ narrow, UInt64.toNat_toUInt32, UInt64.toNat_shiftRight, amount,
    Nat.mod_mod_of_dvd _ (Nat.pow_dvd_pow 2 narrow), Nat.shiftRight_eq_div_pow]
  apply Nat.eq_of_testBit_eq
  intro j
  rw [Nat.testBit_mod_two_pow, Nat.testBit_div_two_pow]
  by_cases inValue : j < bits
  · rw [decide_eq_true inValue, Nat.add_comm, shown j inValue, Bool.true_and]
  · rw [decide_eq_false inValue, testBit_of_lt _ small (by omega), Bool.false_and]

/-- The loop reads back values whose bits stand in the input, `bits` at a time. -/
theorem decodeLoop_bits {input : Bytes} {inputSize bits : Nat} (present : inputSize ≤ input.length)
    (narrow : bits ≤ 32) (values : List UInt32) (small : ∀ value ∈ values, value.toNat < 2 ^ bits)
    (bitOffset : Nat)
    (word : bitOffset + values.length * bits < 2 ^ 64)
    (room : bitOffset + values.length * bits ≤ 8 * inputSize)
    (shown : ∀ i j value, values[i]? = some value → j < bits →
      bitAt input (bitOffset + i * bits + j) = value.toNat.testBit j) :
    decodeLoop input inputSize bits values.length bitOffset = .ok values := by
  induction values generalizing bitOffset with
  | nil => rfl
  | cons value rest ih =>
    obtain ⟨window, read, windowBits⟩ := windowFrom_bits (bitOffset / 8) present 8 0 0 (by decide)
      (by simp)
    have next := next_offset word
    simp only [List.length_cons, Nat.succ_mul] at room word
    have first : (window >>> UInt64.ofNat (bitOffset % 8)).toUInt32 &&& mask bits = value := by
      apply window_value narrow (Nat.mod_lt _ (by decide)) (small value (by simp))
      intro j inValue
      have position : 8 * (bitOffset / 8) + (bitOffset % 8 + j) =
          bitOffset + 0 * bits + j := by omega
      rw [windowBits, decide_eq_true (by omega), position,
        shown 0 j value rfl inValue, Bool.true_and]
    have others : decodeLoop input inputSize bits rest.length (bitOffset + bits) = .ok rest := by
      apply ih (fun value member => small value (by simp [member])) _ (by omega) (by omega)
      intro i j value selected inValue
      have position : bitOffset + bits + i * bits + j = bitOffset + (i + 1) * bits + j := by ring
      rw [position]
      exact shown (i + 1) j value (by simpa using selected) inValue
    rw [List.length_cons, decodeLoop, read, next]
    simp only [bind, Except.bind, others, first]
    rfl

/-- The packed bytes of a list of values. -/
def bytes (values : List UInt32) (bits : Nat) : Bytes :=
  encodeLoop bits (maxEncodedSize values.length bits) values 0
    (List.replicate (maxEncodedSize values.length bits) 0)

@[simp] theorem length_bytes (values : List UInt32) (bits : Nat) :
    (bytes values bits).length = maxEncodedSize values.length bits := by
  rw [bytes, length_encodeLoop, List.length_replicate]

theorem encode_fits (values : List UInt32) (outputSize : Nat) {bits : Nat}
    (wide : 1 ≤ bits) (narrow : bits ≤ 32)
    (fits : maxEncodedSize values.length bits ≤ outputSize) :
    encode values bits outputSize = ⟨bytes values bits, maxEncodedSize values.length bits⟩ := by
  simp only [encode, Nat.not_lt.mpr fits, if_false, show ¬ (bits = 0 ∨ bits > 32) by omega, bytes]

theorem decode_bytes (values : List UInt32) (bits inputSize : Nat) (rest : Bytes) (wide : 1 ≤ bits)
    (narrow : bits ≤ 32) (small : ∀ value ∈ values, value.toNat < 2 ^ bits)
    (told : maxEncodedSize values.length bits ≤ inputSize)
    (present : inputSize ≤ maxEncodedSize values.length bits + rest.length)
    (word : values.length * bits + 7 < 2 ^ 64) :
    decode (bytes values bits ++ rest) inputSize bits values.length =
      .ok (maxEncodedSize values.length bits, values) := by
  have required := maxEncodedSize_eq wide word
  have requiredBytes : (values.length * bits % 2 ^ 64 + 7) % 2 ^ 64 / 8 =
      maxEncodedSize values.length bits := by
    rw [maxEncodedSize, if_neg (by omega)]
  have loop : decodeLoop (bytes values bits ++ rest) inputSize bits values.length 0 =
      .ok values := by
    apply decodeLoop_bits (by simpa using present) narrow values small 0 (by omega) (by omega)
    intro i j value selected inValue
    have index : i < values.length := by
      by_contra outside
      rw [List.getElem?_eq_none (by omega)] at selected
      cases selected
    have last : i * bits + bits ≤ values.length * bits := by
      rw [← Nat.succ_mul]
      exact Nat.mul_le_mul_right bits index
    rw [bitAt_append_left rest (by rw [length_bytes, required]; omega), bytes]
    exact bitAt_encodeLoop narrow values small 0 (by omega) _ (by simp)
      (fun k _ _ => bitAt_replicate_zero _ k) selected inValue
      (by rw [required]; omega)
  rw [decode]
  simp only [requiredBytes, Nat.not_lt.mpr told, if_false, show ¬ (bits = 0 ∨ bits > 32) by omega,
    loop, bind, Except.bind]
  rfl

theorem windowFrom_inside (inputSize byteOffset : Nat) {input : Bytes}
    (left j : Nat) (window : UInt64)
    (eight : left + j = 8) (inside : inputSize ≤ input.length ∨ byteOffset + 8 ≤ input.length) :
    ∃ full, windowFrom input inputSize byteOffset left j window = .ok full := by
  induction left generalizing j window with
  | zero => exact ⟨window, rfl⟩
  | succ left ih =>
    rw [windowFrom]
    split
    · rw [List.getElem?_eq_getElem (by omega : byteOffset + j < input.length)]
      exact ih (j + 1) _ (by omega)
    · exact ⟨window, rfl⟩

theorem windowFrom_outside {input : Bytes} {inputSize byteOffset : Nat}
    (left j : Nat) (window : UInt64)
    (eight : left + j = 8) (told : byteOffset + 8 ≤ inputSize)
    (outside : input.length < byteOffset + 8)
    (before : byteOffset + j ≤ max byteOffset input.length) :
    windowFrom input inputSize byteOffset left j window = .error .fault := by
  induction left generalizing j window with
  | zero => omega
  | succ left ih =>
    rw [windowFrom, if_pos (by omega)]
    by_cases present : byteOffset + j < input.length
    · rw [List.getElem?_eq_getElem present]
      exact ih (j + 1) _ (by omega) (by omega)
    · rw [List.getElem?_eq_none (by omega)]

theorem decodeLoop_inside (input : Bytes) (inputSize bits : Nat) (left bitOffset : Nat)
    (word : bitOffset + left * bits < 2 ^ 64)
    (inside : inputSize ≤ input.length ∨
      ∀ i < left, (bitOffset + i * bits) / 8 + 8 ≤ input.length) :
    ∃ values, decodeLoop input inputSize bits left bitOffset = .ok values ∧
      values.length = left := by
  induction left generalizing bitOffset with
  | zero => exact ⟨[], rfl, rfl⟩
  | succ left ih =>
    have first : inputSize ≤ input.length ∨ bitOffset / 8 + 8 ≤ input.length := by
      refine inside.imp_right fun windows => ?_
      simpa using windows 0 (by omega)
    have later : inputSize ≤ input.length ∨
        ∀ i < left, (bitOffset + bits + i * bits) / 8 + 8 ≤ input.length := by
      refine inside.imp_right fun windows i below => ?_
      have window := windows (i + 1) (by omega)
      rwa [show bitOffset + (i + 1) * bits = bitOffset + bits + i * bits by ring] at window
    obtain ⟨window, read⟩ := windowFrom_inside _ (bitOffset / 8) 8 0 0 (by decide) first
    have next := next_offset word
    rw [Nat.succ_mul] at word
    obtain ⟨values, loop, count⟩ := ih (bitOffset + bits) (by omega) later
    refine ⟨((window >>> UInt64.ofNat (bitOffset % 8)).toUInt32 &&& mask bits) :: values, ?_,
      by rw [List.length_cons, count]⟩
    rw [decodeLoop, read, next, ok_bind, loop, ok_bind]
    rfl

theorem decodeLoop_outside {input : Bytes} {inputSize bits : Nat}
    (left bitOffset : Nat) (some : 0 < left)
    (word : bitOffset + left * bits < 2 ^ 64)
    (told : (bitOffset + (left - 1) * bits) / 8 + 8 ≤ inputSize)
    (outside : input.length < (bitOffset + (left - 1) * bits) / 8 + 8) :
    decodeLoop input inputSize bits left bitOffset = .error .fault := by
  induction left generalizing bitOffset with
  | zero => omega
  | succ left ih =>
    rw [Nat.add_sub_cancel] at told outside
    have monotone : bitOffset / 8 ≤ (bitOffset + left * bits) / 8 := Nat.div_le_div_right (by omega)
    by_cases first : bitOffset / 8 + 8 ≤ input.length
    · obtain ⟨window, read⟩ := windowFrom_inside inputSize (bitOffset / 8) 8 0 0 (by decide)
        (.inr first)
      cases left with
      | zero =>
        rw [Nat.zero_mul, Nat.add_zero] at outside
        omega
      | succ left =>
        have shift : bitOffset + bits + (left + 1 - 1) * bits = bitOffset + (left + 1) * bits := by
          rw [Nat.add_sub_cancel]
          ring
        have next := next_offset word
        rw [Nat.succ_mul] at word
        rw [decodeLoop, read, next, ok_bind,
          ih (bitOffset + bits) (by omega) (by omega) (by omega) (by omega), error_bind]
    · rw [decodeLoop, windowFrom_outside 8 0 0 (by decide) (by omega)
        (by omega) (by omega), error_bind]

end VectorTick.Codec.BitPackU32
