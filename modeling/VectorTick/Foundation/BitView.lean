import VectorTick.Foundation.Bytes

/-! The bits of a byte string, least significant bit of each byte first. -/

set_option autoImplicit false

namespace Foundation

def bitAt (bytes : Bytes) (k : Nat) : Bool := (bytes.getD (k / 8) 0).toNat.testBit (k % 8)

theorem bitAt_replicate_zero (count k : Nat) : bitAt (List.replicate count 0) k = false := by
  simp only [bitAt, List.getD_eq_getElem?_getD, List.getElem?_replicate]
  split <;> simp

theorem bitAt_append_left {first : Bytes} (second : Bytes) {k : Nat}
    (inside : k < 8 * first.length) :
    bitAt (first ++ second) k = bitAt first k := by
  have index : k / 8 < first.length := by omega
  simp only [bitAt, List.getD_eq_getElem?_getD, List.getElem?_append_left index]

/-- Or-ing a byte in place changes the bits of that byte only. -/
theorem bitAt_modify_or (bytes : Bytes) (index : Nat) (byte : UInt8) {k : Nat}
    (inside : k / 8 < bytes.length) :
    bitAt (bytes.modify index (· ||| byte)) k =
      (bitAt bytes k || (decide (k / 8 = index) && byte.toNat.testBit (k % 8))) := by
  simp only [bitAt, List.getD_eq_getElem?_getD, List.getElem?_modify,
    List.getElem?_eq_getElem inside]
  by_cases same : k / 8 = index
  · simp [same]
  · simp [same, Ne.symm same]

theorem bitAt_set (bytes : Bytes) (index : Nat) (byte : UInt8) {k : Nat}
    (inside : k / 8 < bytes.length) :
    bitAt (bytes.set index byte) k = if k / 8 = index then byte.toNat.testBit (k % 8)
      else bitAt bytes k := by
  simp only [bitAt, List.getD_eq_getElem?_getD, List.getElem?_set, List.getElem?_eq_getElem inside]
  by_cases same : k / 8 = index
  · subst same
    simp [inside]
  · simp [same, Ne.symm same]

theorem bitAt_take (bytes : Bytes) {count k : Nat} (inside : k / 8 < count) :
    bitAt (bytes.take count) k = bitAt bytes k := by
  simp only [bitAt, List.getD_eq_getElem?_getD, List.getElem?_take_of_lt inside]

theorem length_foldl {ι : Type} (indices : List ι) (out : Bytes) (step : Bytes → ι → Bytes)
    (keeps : ∀ out index, (step out index).length = out.length) :
    (indices.foldl step out).length = out.length := by
  induction indices generalizing out with
  | nil => rfl
  | cons index rest ih => rw [List.foldl_cons, ih, keeps]

/-- A byte of a number shifted down by whole bytes holds eight of the number's bits. -/
theorem testBit_byte (value index : Nat) {j : Nat} (inByte : j < 8) :
    (value / 2 ^ (8 * index) % 256).testBit j = value.testBit (8 * index + j) := by
  rw [show (256 : Nat) = 2 ^ 8 by decide, Nat.testBit_mod_two_pow, Nat.testBit_div_two_pow]
  simp [inByte, Nat.add_comm]

def byteBits (byte : UInt8) : List Bool := (List.range 8).map byte.toNat.testBit

/-- The bits of a byte string in the order of `bitAt`. -/
def bits (bytes : Bytes) : List Bool := bytes.flatMap byteBits

@[simp] theorem length_byteBits (byte : UInt8) : (byteBits byte).length = 8 := by
  simp [byteBits]

@[simp] theorem length_bits (bytes : Bytes) : (bits bytes).length = 8 * bytes.length := by
  induction bytes with
  | nil => rfl
  | cons byte rest ih =>
    rw [bits, List.flatMap_cons, List.length_append, length_byteBits, List.length_cons]
    change 8 + (bits rest).length = _
    omega

theorem getElem?_bits (bytes : Bytes) {k : Nat} (inside : k < 8 * bytes.length) :
    (bits bytes)[k]? = some (bitAt bytes k) := by
  induction bytes generalizing k with
  | nil => simp at inside
  | cons byte rest ih =>
    rw [bits, List.flatMap_cons]
    by_cases here : k < 8
    · rw [List.getElem?_append_left (by rwa [length_byteBits])]
      simp [byteBits, bitAt, here, Nat.div_eq_of_lt here, Nat.mod_eq_of_lt here]
    · rw [List.getElem?_append_right (by rw [length_byteBits]; omega), length_byteBits]
      rw [List.length_cons] at inside
      have index : k / 8 = (k - 8) / 8 + 1 := by omega
      have bit : k % 8 = (k - 8) % 8 := by omega
      rw [bitAt, index, bit, List.getD_cons_succ]
      exact ih (by omega)

/-- Byte strings of one length with the same bits are the same. -/
theorem eq_of_bitAt {first second : Bytes} (same : first.length = second.length)
    (bitwise : ∀ k < 8 * first.length, bitAt first k = bitAt second k) : first = second := by
  refine List.ext_getElem same fun i inFirst inSecond =>
    UInt8.toNat_inj.mp (Nat.eq_of_testBit_eq fun j => ?_)
  by_cases inByte : j < 8
  · have bit := bitwise (8 * i + j) (by omega)
    simpa [bitAt, show (8 * i + j) / 8 =
      i by omega, show (8 * i + j) % 8 = j by omega, inFirst, inSecond] using bit
  · have high : ∀ byte : UInt8, byte.toNat.testBit j = false := fun byte =>
      Nat.testBit_lt_two_pow
        (Nat.lt_of_lt_of_le byte.toNat_lt (Nat.pow_le_pow_right (by decide) (by omega)))
    rw [high, high]

theorem testBit_of_lt (width : Nat) {value k : Nat}
    (small : value < 2 ^ width) (above : width ≤ k) :
    value.testBit k = false :=
  Nat.testBit_lt_two_pow (Nat.lt_of_lt_of_le small (Nat.pow_le_pow_right (by decide) above))

/-- What lies below a part is added to it. -/
theorem or_mul_two_pow {lower shift : Nat} (upper : Nat) (below : lower < 2 ^ shift) :
    lower ||| upper * 2 ^ shift = lower + upper * 2 ^ shift := by
  rw [Nat.or_comm, Nat.mul_comm, ← Nat.two_pow_add_eq_or_of_lt below, Nat.add_comm]

theorem mul_two_pow_lt {part width shift total : Nat} (small : part < 2 ^ width)
    (inside : shift + width ≤ total) :
    part * 2 ^ shift < 2 ^ total :=
  calc part * 2 ^ shift < 2 ^ width * 2 ^ shift :=
    Nat.mul_lt_mul_of_pos_right small (Nat.two_pow_pos _)
    _ = 2 ^ (shift + width) := by rw [← Nat.pow_add, Nat.add_comm]
    _ ≤ 2 ^ total := Nat.pow_le_pow_right (by decide) inside

theorem toNat_shiftLeft_word (part : UInt64) {shift : Nat} (inWord : shift < 64) :
    (part <<< UInt64.ofNat shift).toNat = part.toNat * 2 ^ shift % 2 ^ 64 := by
  have amount : (UInt64.ofNat shift).toNat % 64 = shift := by
    rw [UInt64.toNat_ofNat']
    omega
  rw [UInt64.toNat_shiftLeft, amount, Nat.shiftLeft_eq]

theorem toNat_shiftLeft_half (part : UInt32) {shift : Nat} (inWord : shift < 32) :
    (part <<< UInt32.ofNat shift).toNat = part.toNat * 2 ^ shift % 2 ^ 32 := by
  have amount : (UInt32.ofNat shift).toNat % 32 = shift := by
    rw [UInt32.toNat_ofNat']
    omega
  rw [UInt32.toNat_shiftLeft, amount, Nat.shiftLeft_eq]

theorem toNat_placed_byte (byte : UInt8) {j : Nat} (inWord : j < 4) :
    (byte.toUInt32 <<< UInt32.ofNat (j * 8)).toNat = byte.toNat * 2 ^ (8 * j) := by
  rw [toNat_shiftLeft_half _ (by omega), UInt8.toNat_toUInt32, Nat.mul_comm j,
    Nat.mod_eq_of_lt (mul_two_pow_lt byte.toNat_lt (by omega))]

end Foundation
