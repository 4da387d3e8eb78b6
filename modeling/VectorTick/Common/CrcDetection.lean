import VectorTick.Common.Crc32C

/-! What the checksum detects: a byte string with one byte changed has another checksum.

One step of the table is linear and loses nothing, since the polynomial has its highest bit set.
A byte of data is eight such steps on the register with the byte mixed in.
-/

set_option autoImplicit false

namespace VectorTick.Crc32C

open Foundation

/-- A step of the table shifts the register and, if a one falls out, adds the polynomial. -/
def shiftBits (crc : BitVec 32) : BitVec 32 :=
  (crc >>> 1) ^^^ (if crc.getLsbD 0 then polynomial.toBitVec else 0#32)

theorem toBitVec_tableStep (crc : UInt32) : (tableStep crc).toBitVec = shiftBits crc.toBitVec := by
  have low : (crc &&& 1 ≠ 0) ↔ crc.toBitVec.getLsbD 0 = true := by
    rw [ne_eq, ← UInt32.toBitVec_inj, UInt32.toBitVec_and]
    change ¬ crc.toBitVec &&& 1#32 = 0#32 ↔ _
    rw [BitVec.and_one_eq_setWidth_ofBool_getLsbD]
    cases crc.toBitVec.getLsbD 0 <;> decide
  unfold tableStep shiftBits
  by_cases one : crc.toBitVec.getLsbD 0 = true
  · rw [if_pos (low.mpr one), if_pos one]
    rfl
  · rw [if_neg (mt low.mp one), if_neg one, BitVec.xor_zero]
    rfl

theorem shiftBits_xor (first second : BitVec 32) :
    shiftBits (first ^^^ second) = shiftBits first ^^^ shiftBits second := by
  unfold shiftBits
  rw [BitVec.ushiftRight_xor_distrib, BitVec.getLsbD_xor]
  generalize first >>> 1 = a
  generalize second >>> 1 = b
  generalize polynomial.toBitVec = p
  cases first.getLsbD 0 <;> cases second.getLsbD 0
  · simp
  · simp [BitVec.xor_assoc]
  · simp only [Bool.xor_false, if_true, Bool.false_eq_true, if_false, BitVec.xor_zero]
    rw [BitVec.xor_assoc, BitVec.xor_comm b p, ← BitVec.xor_assoc]
  · simp only [Bool.xor_self, if_true, Bool.false_eq_true, if_false, BitVec.xor_zero]
    rw [BitVec.xor_assoc a p, BitVec.xor_comm b p, ← BitVec.xor_assoc p,
      BitVec.xor_self, BitVec.zero_xor]

theorem shiftBits_eq_zero {crc : BitVec 32} (zero : shiftBits crc = 0#32) : crc = 0#32 := by
  unfold shiftBits at zero
  by_cases one : crc.getLsbD 0 = true
  · -- The polynomial has its highest bit set, and the shifted register has not.
    rw [if_pos one] at zero
    have top := congrArg (fun x : BitVec 32 => x.getLsbD 31) zero
    simp [polynomial] at top
  · rw [if_neg one, BitVec.xor_zero] at zero
    apply BitVec.eq_of_getLsbD_eq
    intro i inside
    cases i with
    | zero => simpa using one
    | succ i =>
      have bit := congrArg (fun x : BitVec 32 => x.getLsbD i) zero
      simpa [BitVec.getLsbD_ushiftRight, Nat.add_comm] using bit

theorem iterate_xor (count : Nat) (first second : BitVec 32) :
    shiftBits^[count] (first ^^^ second) =
      shiftBits^[count] first ^^^ shiftBits^[count] second := by
  induction count generalizing first second with
  | zero => rfl
  | succ count ih =>
    rw [Function.iterate_succ_apply, shiftBits_xor, ih]
    rfl

theorem iterate_eq_zero {count : Nat} {crc : BitVec 32} (zero : shiftBits^[count] crc = 0#32) :
    crc = 0#32 := by
  induction count generalizing crc with
  | zero => exact zero
  | succ count ih => exact shiftBits_eq_zero (ih zero)

/-- As long as zeros fall out, the register is shifted only. -/
theorem iterate_high {count : Nat} {crc : BitVec 32} (low : ∀ i < count, crc.getLsbD i = false) :
    shiftBits^[count] crc = crc >>> count := by
  induction count generalizing crc with
  | zero => simp
  | succ count ih =>
    have once : shiftBits crc = crc >>> 1 := by
      unfold shiftBits
      rw [low 0 (by omega), if_neg (by decide), BitVec.xor_zero]
    rw [Function.iterate_succ_apply, once, ih, ← BitVec.shiftRight_add, Nat.add_comm]
    intro i inside
    rw [BitVec.getLsbD_ushiftRight]
    exact low (1 + i) (by omega)

theorem toBitVec_table (index : UInt32) :
    (table index).toBitVec = shiftBits^[8] index.toBitVec := by
  simp only [table, toBitVec_tableStep, Function.iterate_succ_apply, Function.iterate_zero_apply]

/-- The low byte of the register and the byte at hand are shifted out together. -/
theorem byteStep_eq (crc : UInt32) (byte : UInt8) :
    byteStep crc byte = table (crc ^^^ byte.toUInt32) := by
  apply UInt32.toBitVec_inj.mp
  generalize mixed : (crc ^^^ byte.toUInt32).toBitVec = x
  have split : x = (x &&& 255#32) ^^^ (x &&& ~~~255#32) := by
    apply BitVec.eq_of_getLsbD_eq
    intro i inside
    simp only [BitVec.getLsbD_xor, BitVec.getLsbD_and, BitVec.getLsbD_not, inside]
    cases x.getLsbD i <;> cases (255#32).getLsbD i <;> rfl
  have mask : ∀ i < 32, (255#32).getLsbD i = decide (i < 8) := by decide
  have low : ∀ i < 8, (x &&& ~~~255#32).getLsbD i = false := by
    intro i inside
    rw [BitVec.getLsbD_and, BitVec.getLsbD_not, mask i (by omega), decide_eq_true inside]
    simp
  have high : (x &&& ~~~255#32) >>> 8 = crc.toBitVec >>> 8 := by
    apply BitVec.eq_of_getLsbD_eq
    intro i inside
    rw [BitVec.getLsbD_ushiftRight, BitVec.getLsbD_ushiftRight,
      BitVec.getLsbD_and, BitVec.getLsbD_not]
    by_cases there : 8 + i < 32
    · have none : byte.toUInt32.toBitVec.getLsbD (8 + i) = false := by
        rw [UInt8.toBitVec_toUInt32, BitVec.getLsbD_setWidth,
          BitVec.getLsbD_of_ge byte.toBitVec _ (by omega), Bool.and_false]
      rw [mask _ there, decide_eq_false (show ¬ 8 + i < 8 by omega), ← mixed, UInt32.toBitVec_xor,
        BitVec.getLsbD_xor, none]
      simp [there]
    · rw [BitVec.getLsbD_of_ge crc.toBitVec _ (by omega), decide_eq_false there,
        Bool.false_and, Bool.and_false]
  have whole : (table (crc ^^^ byte.toUInt32)).toBitVec = shiftBits^[8]
      (x &&& 255#32) ^^^ (crc.toBitVec >>> 8) := by
    rw [toBitVec_table, mixed]
    conv_lhs => rw [split, iterate_xor, iterate_high low, high]
  rw [whole, ← mixed]
  unfold byteStep
  rw [UInt32.toBitVec_xor, toBitVec_table]
  rfl

theorem xor_cancel {first second mask : UInt32} (same : first ^^^ mask = second ^^^ mask) :
    first = second := by
  have undone := congrArg (· ^^^ mask) same
  simpa [UInt32.xor_assoc] using undone

theorem table_injective : Function.Injective table := by
  intro first second same
  have difference : shiftBits^[8] (first.toBitVec ^^^ second.toBitVec) = 0#32 := by
    rw [iterate_xor, ← toBitVec_table, ← toBitVec_table, same, BitVec.xor_self]
  exact UInt32.toBitVec_inj.mp (BitVec.xor_eq_zero_iff.mp (iterate_eq_zero difference))

theorem byteStep_crc_injective (byte : UInt8) :
    Function.Injective fun crc => byteStep crc byte := by
  intro first second same
  simp only [byteStep_eq] at same
  exact xor_cancel (table_injective same)

theorem byteStep_byte_injective (crc : UInt32) : Function.Injective (byteStep crc) := by
  intro first second same
  simp only [byteStep_eq] at same
  have mixed := table_injective same
  rw [UInt32.xor_comm crc, UInt32.xor_comm crc] at mixed
  have wide := xor_cancel mixed
  have back := congrArg UInt32.toUInt8 wide
  simpa using back

theorem computeSw_injective (data : Bytes) : Function.Injective fun crc => computeSw crc data := by
  induction data with
  | nil => exact fun _ _ same => same
  | cons byte rest ih => exact ih.comp (byteStep_crc_injective byte)

theorem computeFrom_injective (data : Bytes) :
    Function.Injective fun crc => computeFrom crc data := by
  intro first second same
  unfold computeFrom at same
  by_cases empty : data = []
  · simpa [empty] using same
  · simp only [if_neg empty] at same
    exact xor_cancel (computeSw_injective data (xor_cancel same))

/-- The checksum tells byte strings apart that differ in one byte, whatever it continues. -/
theorem computeFrom_ne_of_byte (crc : UInt32) {first second : UInt8}
    (differ : first ≠ second) (front rest : Bytes) :
    computeFrom crc (front ++ first :: rest) ≠ computeFrom crc (front ++ second :: rest) := by
  intro same
  unfold computeFrom at same
  rw [if_neg (by simp), if_neg (by simp)] at same
  have registers := xor_cancel same
  unfold computeSw at registers
  rw [List.foldl_append, List.foldl_append, List.foldl_cons, List.foldl_cons] at registers
  exact differ (byteStep_byte_injective _ (computeSw_injective rest registers))

theorem compute_ne_of_byte {first second : UInt8} (differ : first ≠ second) (front rest : Bytes) :
    compute (front ++ first :: rest) ≠ compute (front ++ second :: rest) :=
  computeFrom_ne_of_byte 0 differ front rest

theorem computeFrom_set_ne (crc : UInt32) {data : Bytes} {position : Nat} {value : UInt8}
    (inside : position < data.length) (differs : data[position]? ≠ some value) :
    computeFrom crc (data.set position value) ≠ computeFrom crc data := by
  rw [List.getElem?_eq_getElem inside, ne_eq, Option.some.injEq] at differs
  have split : data = data.take position ++ data[position] :: data.drop (position + 1) := by
    rw [List.cons_getElem_drop_succ, List.take_append_drop]
  have changed : data.set position value =
      data.take position ++ value :: data.drop (position + 1) :=
    List.set_eq_take_cons_drop value inside
  rw [changed]
  conv_rhs => rw [split]
  exact computeFrom_ne_of_byte crc (fun same => differs same.symm) _ _

end VectorTick.Crc32C
