import Mathlib.Tactic
import VectorTick.Foundation.BitView
import VectorTick.Foundation.MachineIntegers
import VectorTick.Jit.A64Machine

/-! Loads and stores of the AArch64 assembler.

An access has twelve bits of offset in units of its size, or nine bits with a sign in units of
one byte. The decoder reads the fields of the two classes of the encoding, "unsigned
immediate" and "unscaled immediate". -/

set_option autoImplicit false

namespace VectorTick.Jit

open Foundation

namespace A64Assembler

/-- The choice of the loads, with the opcodes of a store. -/
def strX64 (src base : A64Reg) (offset : Int32) : UInt32 :=
  loadAt 0xF9000000 0xF8000000 8 32760 src base offset

end A64Assembler

inductive A64Move where
  -- `size` bytes, extended with zeros.
  | load (size : Nat) (dst base : A64Reg) (offset : Int)
  -- The lowest `size` bytes of the register.
  | store (size : Nat) (src base : A64Reg) (offset : Int)
  deriving DecidableEq, Repr

namespace A64

/-- `width` bits of a word from bit `place` on. -/
def field (word : UInt32) (place width : Nat) : Nat := word.toNat / 2 ^ place % 2 ^ width

def signed9 (bits : Nat) : Int := if bits < 256 then bits else bits - 512

def moveSize (word : UInt32) : Nat := 2 ^ field word 30 2

def moveOffset (word : UInt32) : Option Int :=
  if field word 24 6 = 0b111001 then some ((field word 10 12 : Int) * moveSize word)
  else if field word 24 6 = 0b111000 ∧ field word 21 1 = 0 ∧ field word 10 2 = 0 then
    some (signed9 (field word 12 9))
  else none

def decodeMove (word : UInt32) : Option A64Move :=
  (moveOffset word).bind fun offset =>
    if field word 22 2 = 0 then some (.store (moveSize word) (rd word) (rn word) offset)
    else if field word 22 2 = 1 then some (.load (moveSize word) (rd word) (rn word) offset)
    -- Loads with a sign, and prefetches.
    else none

open A64Assembler

theorem toNat_rIdx : ∀ reg, (rIdx reg).toNat < 32 := by decide

theorem toNat_or_apart {upper lower : UInt32} {place : Nat} (high : upper.toNat % 2 ^ place = 0)
    (low : lower.toNat < 2 ^ place) : (upper ||| lower).toNat = upper.toNat + lower.toNat := by
  have whole : upper.toNat / 2 ^ place * 2 ^ place = upper.toNat :=
    Nat.div_mul_cancel (Nat.dvd_of_mod_eq_zero high)
  rw [UInt32.toNat_or, ← whole, Nat.or_comm, or_mul_two_pow _ low, Nat.add_comm]

theorem toNat_shifted {bits shift : UInt32} {width : Nat} (small : bits.toNat < 2 ^ width)
    (inside : shift.toNat + width < 32) :
    (bits <<< shift).toNat = bits.toNat * 2 ^ shift.toNat := by
  have bound : bits.toNat * 2 ^ shift.toNat < 2 ^ 32 := mul_two_pow_lt small (by omega)
  rw [UInt32.toNat_shiftLeft, Nat.mod_eq_of_lt (show shift.toNat < 32 by omega),
    Nat.shiftLeft_eq, Nat.mod_eq_of_lt bound]

section Words

variable {opcode bits shift : UInt32} {width : Nat} (data base : A64Reg)

/-- The word of an access is the sum of its parts. -/
theorem toNat_word (free : opcode.toNat % 2 ^ (shift.toNat + width) = 0)
    (small : bits.toNat < 2 ^ width)
    (above : 10 ≤ shift.toNat) (inside : shift.toNat + width < 32) :
    (opcode ||| (bits <<< shift) ||| (rIdx base <<< 5) ||| rIdx data).toNat =
      opcode.toNat + bits.toNat * 2 ^ shift.toNat + (rIdx base).toNat * 32 + (rIdx data).toNat := by
  have placed := toNat_shifted small inside
  have register : (rIdx base <<< 5).toNat = (rIdx base).toNat * 32 :=
    @toNat_shifted (rIdx base) 5 5 (toNat_rIdx base) (by decide)
  have baseSmall := toNat_rIdx base
  have dataSmall := toNat_rIdx data
  have fits : bits.toNat * 2 ^ shift.toNat < 2 ^ (shift.toNat + width) :=
    mul_two_pow_lt small (Nat.le_refl _)
  -- Both registers stay below the offset.
  have lower : ∀ place ≤ shift.toNat, ∀ word : Nat, word % 2 ^ shift.toNat = 0 →
      word % 2 ^ place = 0 :=
    fun place le word zero =>
      Nat.mod_eq_zero_of_dvd ((Nat.pow_dvd_pow 2 le).trans (Nat.dvd_of_mod_eq_zero zero))
  have first : (opcode ||| (bits <<< shift)).toNat =
      opcode.toNat + bits.toNat * 2 ^ shift.toNat := by
    rw [toNat_or_apart free (placed ▸ fits), placed]
  have zero : (opcode ||| (bits <<< shift)).toNat % 2 ^ shift.toNat = 0 := by
    have whole : opcode.toNat % 2 ^ shift.toNat = 0 :=
      Nat.mod_eq_zero_of_dvd
        ((Nat.pow_dvd_pow 2 (Nat.le_add_right ..)).trans (Nat.dvd_of_mod_eq_zero free))
    rw [first, Nat.add_mul_mod_self_right, whole]
  have second : (opcode ||| (bits <<< shift) ||| (rIdx base <<< 5)).toNat =
      opcode.toNat + bits.toNat * 2 ^ shift.toNat + (rIdx base).toNat * 32 := by
    rw [toNat_or_apart (lower 10 above _ zero) (by rw [register]; omega), register, first]
  have last : (opcode ||| (bits <<< shift) ||| (rIdx base <<< 5)).toNat % 2 ^ 5 = 0 := by
    have low := lower 5 (by omega) _ zero
    rw [second, ← first]
    omega
  rw [toNat_or_apart last (by omega), second]

theorem registers_of_toNat {word : UInt32} {upper : Nat}
    (parts : word.toNat = upper * 1024 + (rIdx base).toNat * 32 + (rIdx data).toNat) :
    rd word = data ∧ rn word = base := by
  have baseSmall := toNat_rIdx base
  have dataSmall := toNat_rIdx data
  have mask : (0x1F : UInt32).toNat = 2 ^ 5 - 1 := rfl
  have first : word &&& 0x1F = rIdx data := by
    rw [← UInt32.toNat_inj, UInt32.toNat_and, mask, Nat.and_two_pow_sub_one_eq_mod]
    omega
  have second : (word >>> 5) &&& 0x1F = rIdx base := by
    rw [← UInt32.toNat_inj, UInt32.toNat_and, UInt32.toNat_shiftRight, mask,
      Nat.and_two_pow_sub_one_eq_mod, Nat.shiftRight_eq_div_pow]
    change word.toNat / 2 ^ 5 % 2 ^ 5 = _
    omega
  rw [rd, rn, first, second]
  exact ⟨ofBits_rIdx data, ofBits_rIdx base⟩

end Words

/-- The offsets that an access of some size can have. -/
def Reaches (size : Nat) (offset : Int) : Prop :=
  (-256 ≤ offset ∧ offset ≤ 255) ∨ (0 ≤ offset ∧ (size : Int) ∣ offset ∧ offset ≤ 4095 * size)

instance (size : Nat) (offset : Int) : Decidable (Reaches size offset) :=
  inferInstanceAs (Decidable ((_ ∧ _) ∨ (_ ∧ _ ∧ _)))

theorem signed9_emod {offset : Int} (low : -256 ≤ offset) (high : offset ≤ 255) :
    signed9 (offset % 512).toNat = offset := by
  unfold signed9
  split <;> omega

theorem toNat_toUInt32 (offset : Int32) :
    (offset.toUInt32.toNat : Int) = offset.toInt % 2 ^ 32 := by
  have small := offset.toUInt32.toNat_lt
  have whole : offset.toInt = Int.bmod offset.toUInt32.toNat (2 ^ 32) :=
    BitVec.toInt_eq_toNat_bmod offset.toBitVec
  rw [whole, Int.bmod_def]
  split <;> omega

theorem toNat_unscaled (offset : Int32) :
    (offset.toUInt32 &&& 0x1FF).toNat = (offset.toInt % 512).toNat := by
  have whole := toNat_toUInt32 offset
  have mask : (0x1FF : UInt32).toNat = 2 ^ 9 - 1 := rfl
  rw [UInt32.toNat_and, mask, Nat.and_two_pow_sub_one_eq_mod]
  omega

section Scaled

variable {size offset : Int32} {power : Nat} (small : power < 4) (sized : size.toInt = 2 ^ power)
include small sized

theorem toNat_size : size.toUInt32.toNat = 2 ^ power := by
  have whole := toNat_toUInt32 size
  interval_cases power <;> omega

/-- The mask of the source tests for whole units. -/
theorem aligned_iff (nonneg : 0 ≤ offset.toInt) : offset &&& (size - 1) = 0 ↔
    ((2 ^ power : Nat) : Int) ∣ offset.toInt := by
  have whole := toNat_toUInt32 offset
  have below := Int32.toInt_lt offset
  have sizeIs := toNat_size small sized
  have mask : (size - 1).toUInt32.toNat = 2 ^ power - 1 := by
    rw [Int32.toUInt32_sub, UInt32.toNat_sub_of_le, sizeIs]
    · rfl
    · rw [UInt32.le_iff_toNat_le, sizeIs]
      exact Nat.one_le_two_pow
  have bits : (offset &&& (size - 1)).toUInt32.toNat = offset.toUInt32.toNat % 2 ^ power := by
    rw [Int32.toUInt32_and, UInt32.toNat_and, mask, Nat.and_two_pow_sub_one_eq_mod]
  have zero : offset &&& (size - 1) = 0 ↔ (offset &&& (size - 1)).toUInt32.toNat = 0 := by
    rw [← Int32.toBitVec_inj, ← BitVec.toNat_inj, Int32.toNat_toBitVec]
    rfl
  have same : (offset.toUInt32.toNat : Int) = offset.toInt := by omega
  rw [zero, bits, ← same, Int.natCast_dvd_natCast, Nat.dvd_iff_mod_eq_zero]

theorem toNat_scaled (nonneg : 0 ≤ offset.toInt) (inside : offset.toInt ≤ 4095 * 2 ^ power) :
    ((offset / size).toUInt32 &&& 0xFFF).toNat = (offset.toInt / 2 ^ power).toNat := by
  have quotient : (offset / size).toInt = offset.toInt / 2 ^ power := by
    rw [Int32.toInt_div_of_ne_right _ _ (by rintro rfl; interval_cases power <;> cases sized),
      sized, Int.tdiv_eq_ediv_of_nonneg nonneg]
  have whole := toNat_toUInt32 (offset / size)
  have mask : (0xFFF : UInt32).toNat = 2 ^ 12 - 1 := rfl
  have low : 0 ≤ offset.toInt / 2 ^ power := Int.ediv_nonneg nonneg (by positivity)
  have high : offset.toInt / 2 ^ power ≤ 4095 := Int.ediv_le_of_le_mul (by positivity) inside
  rw [UInt32.toNat_and, mask, Nat.and_two_pow_sub_one_eq_mod]
  omega

end Scaled

/-- The fields of a word that the two forms of an access share. -/
structure Opcode (opcode : UInt32) (power kind form : Nat) : Prop where
  whole : opcode.toNat = power * 2 ^ 30 + form * 2 ^ 24 + kind * 2 ^ 22
  power : power < 4
  kind : kind < 4
  form : form < 64

/-- What the bits below an opcode are does not matter to it. -/
theorem field_opcode {opcode word : UInt32} {power kind form rest : Nat}
    (known : Opcode opcode power kind form)
    (parts : word.toNat = opcode.toNat + rest) (small : rest < 2 ^ 22) :
    field word 30 2 = power ∧ field word 24 6 = form ∧ field word 22 2 = kind := by
  obtain ⟨whole, powerSmall, kindSmall, formSmall⟩ := known
  unfold field
  omega

theorem Opcode.free {opcode : UInt32} {power kind form : Nat}
    (known : Opcode opcode power kind form) :
    opcode.toNat % 2 ^ 22 = 0 := by
  have whole := known.whole
  omega

section Forms

variable {opcode bits : UInt32} {power kind : Nat} (data base : A64Reg)

theorem scaled_fields (known : Opcode opcode power kind 0b111001) (small : bits.toNat < 2 ^ 12) :
    let word := opcode ||| (bits <<< 10) ||| (rIdx base <<< 5) ||| rIdx data
    field word 22 2 = kind ∧ field word 30 2 = power ∧ rd word = data ∧ rn word = base ∧
      moveOffset word = some ((bits.toNat : Int) * 2 ^ power) := by
  intro word
  have free := known.free
  have parts : word.toNat =
      opcode.toNat + bits.toNat * 2 ^ 10 + (rIdx base).toNat * 32 + (rIdx data).toNat :=
    @toNat_word opcode bits 10 12 data base free small (by decide) (by decide)
  have baseSmall := toNat_rIdx base
  have dataSmall := toNat_rIdx data
  obtain ⟨powerIs, formIs, kindIs⟩ := @field_opcode _ word _ _ _
    (bits.toNat * 2 ^ 10 + (rIdx base).toNat * 32 + (rIdx data).toNat) known (by omega) (by omega)
  obtain ⟨first, second⟩ :=
    @registers_of_toNat data base word (opcode.toNat / 1024 + bits.toNat) (by omega)
  have offsetIs : field word 10 12 = bits.toNat := by
    unfold field
    omega
  refine ⟨kindIs, powerIs, first, second, ?_⟩
  rw [moveOffset, if_pos formIs, offsetIs, moveSize, powerIs, Nat.cast_pow, Nat.cast_ofNat]

theorem unscaled_fields (known : Opcode opcode power kind 0b111000) (small : bits.toNat < 2 ^ 9) :
    let word := opcode ||| (bits <<< 12) ||| (rIdx base <<< 5) ||| rIdx data
    field word 22 2 = kind ∧ field word 30 2 = power ∧ rd word = data ∧ rn word = base ∧
      moveOffset word = some (signed9 bits.toNat) := by
  intro word
  have wider := known.free
  have free : opcode.toNat % 2 ^ 21 = 0 := by omega
  have parts : word.toNat =
      opcode.toNat + bits.toNat * 2 ^ 12 + (rIdx base).toNat * 32 + (rIdx data).toNat :=
    @toNat_word opcode bits 12 9 data base free small (by decide) (by decide)
  have baseSmall := toNat_rIdx base
  have dataSmall := toNat_rIdx data
  obtain ⟨powerIs, formIs, kindIs⟩ := @field_opcode _ word _ _ _
    (bits.toNat * 2 ^ 12 + (rIdx base).toNat * 32 + (rIdx data).toNat) known (by omega) (by omega)
  obtain ⟨first, second⟩ :=
    @registers_of_toNat data base word (opcode.toNat / 1024 + bits.toNat * 4) (by omega)
  have fixed : field word 21 1 = 0 ∧ field word 10 2 = 0 ∧ field word 12 9 = bits.toNat := by
    unfold field
    omega
  obtain ⟨above, below, offsetIs⟩ := fixed
  refine ⟨kindIs, powerIs, first, second, ?_⟩
  rw [moveOffset, if_neg (by rw [formIs]; decide), if_pos ⟨formIs, above, below⟩, offsetIs]

variable {scaled unscaled : UInt32} {size limit offset : Int32}

/-- Whichever form is chosen, the word has the offset. -/
theorem fields_loadAt (scaledIs : Opcode scaled power kind 0b111001)
    (unscaledIs : Opcode unscaled power kind 0b111000)
    (sized : size.toInt = 2 ^ power) (limited : limit.toInt = 4095 * 2 ^ power)
    (reaches : Reaches (2 ^ power) offset.toInt) :
    let word := loadAt scaled unscaled size limit data base offset
    field word 22 2 = kind ∧ field word 30 2 = power ∧ rd word = data ∧ rn word = base ∧
      moveOffset word = some offset.toInt := by
  have small := scaledIs.power
  unfold loadAt
  split
  case isTrue chosen =>
    obtain ⟨nonneg, aligned, inside⟩ := chosen
    have start : 0 ≤ offset.toInt := Int32.le_iff_toInt_le.mp nonneg
    have bound : offset.toInt ≤ 4095 * 2 ^ power := limited ▸ Int32.le_iff_toInt_le.mp inside
    have units := toNat_scaled small sized start bound
    have divides := (aligned_iff small sized start).mp aligned
    have unitsFit : offset.toInt / 2 ^ power ≤ 4095 := Int.ediv_le_of_le_mul (by positivity) bound
    have unitsStart : 0 ≤ offset.toInt / 2 ^ power := Int.ediv_nonneg start (by positivity)
    have back : (((offset / size).toUInt32 &&& 0xFFF).toNat : Int) * 2 ^ power = offset.toInt := by
      rw [units, Int.toNat_of_nonneg unitsStart]
      exact Int.ediv_mul_cancel (by exact_mod_cast divides)
    obtain ⟨kindIs, powerIs, first, second, offsetIs⟩ :=
      @scaled_fields scaled ((offset / size).toUInt32 &&& 0xFFF)
      power kind data base scaledIs (by omega)
    refine ⟨kindIs, powerIs, first, second, ?_⟩
    rw [offsetIs, back]
  case isFalse other =>
    have low : -256 ≤ offset.toInt ∧ offset.toInt ≤ 255 := by
      refine reaches.resolve_right fun ⟨start, divides, bound⟩ => other ⟨?_, ?_, ?_⟩
      · exact Int32.le_iff_toInt_le.mpr start
      · exact (aligned_iff small sized start).mpr divides
      · exact Int32.le_iff_toInt_le.mpr (limited ▸ by exact_mod_cast bound)
    have bytes := toNat_unscaled offset
    obtain ⟨kindIs, powerIs, first, second, offsetIs⟩ :=
      @unscaled_fields unscaled (offset.toUInt32 &&& 0x1FF)
      power kind data base unscaledIs (by omega)
    refine ⟨kindIs, powerIs, first, second, ?_⟩
    rw [offsetIs, bytes, signed9_emod low.1 low.2]

end Forms

/-- Wherever an offset can be had, the word decodes to an access there. -/
def Encodes (emit : A64Reg → A64Reg → Int32 → UInt32) (size : Nat)
    (move : Nat → A64Reg → A64Reg → Int → A64Move) : Prop :=
  ∀ data base offset, Reaches size offset.toInt →
    decodeMove (emit data base offset) = some (move size data base offset.toInt)

section Encodes

variable {scaled unscaled : UInt32} {size limit : Int32} {power : Nat}

theorem encodes_load (scaledIs : Opcode scaled power 1 0b111001)
    (unscaledIs : Opcode unscaled power 1 0b111000)
    (sized : size.toInt = 2 ^ power) (limited : limit.toInt = 4095 * 2 ^ power) :
    Encodes (loadAt scaled unscaled size limit) (2 ^ power) .load := by
  intro data base offset reaches
  obtain ⟨kind, powerIs, first, second, offsetIs⟩ :=
    fields_loadAt data base scaledIs unscaledIs sized limited reaches
  rw [decodeMove, offsetIs, Option.bind_some, if_neg (by rw [kind]; decide), if_pos kind,
    moveSize, powerIs, first, second]

theorem encodes_store (scaledIs : Opcode scaled power 0 0b111001)
    (unscaledIs : Opcode unscaled power 0 0b111000)
    (sized : size.toInt = 2 ^ power) (limited : limit.toInt = 4095 * 2 ^ power) :
    Encodes (loadAt scaled unscaled size limit) (2 ^ power) .store := by
  intro data base offset reaches
  obtain ⟨kind, powerIs, first, second, offsetIs⟩ :=
    fields_loadAt data base scaledIs unscaledIs sized limited reaches
  rw [decodeMove, offsetIs, Option.bind_some, if_pos kind, moveSize, powerIs, first, second]

end Encodes

theorem encodes_ldrX64 : Encodes ldrX64 8 .load :=
  @encodes_load _ _ _ _ 3 (by constructor <;> decide)
    (by constructor <;> decide) (by decide) (by decide)

theorem encodes_ldrW32 : Encodes ldrW32 4 .load :=
  @encodes_load _ _ _ _ 2 (by constructor <;> decide)
    (by constructor <;> decide) (by decide) (by decide)

theorem encodes_ldrh : Encodes ldrh 2 .load :=
  @encodes_load _ _ _ _ 1 (by constructor <;> decide)
    (by constructor <;> decide) (by decide) (by decide)

theorem encodes_ldrb : Encodes ldrb 1 .load :=
  @encodes_load _ _ _ _ 0 (by constructor <;> decide)
    (by constructor <;> decide) (by decide) (by decide)

theorem encodes_strX64 : Encodes strX64 8 .store :=
  @encodes_store _ _ _ _ 3 (by constructor <;> decide)
    (by constructor <;> decide) (by decide) (by decide)

example : strX64 .x2 .x3 24 = 0xF9000C62 ∧
    decodeMove 0xF9000C62 = some (.store 8 .x2 .x3 24) := by decide

-- It finds the same loads, with an offset that wraps around as addresses do.

theorem and_shiftLeft (bits mask place : Nat) :
    bits &&& (mask <<< place) = (bits / 2 ^ place &&& mask) <<< place := by
  apply Nat.eq_of_testBit_eq
  intro i
  rw [Nat.testBit_and, Nat.testBit_shiftLeft, Nat.testBit_shiftLeft, Nat.testBit_and,
    Nat.testBit_div_two_pow]
  rcases Nat.lt_or_ge i place with below | above
  · rw [decide_eq_false (Nat.not_le.mpr below), Bool.false_and, Bool.and_false, Bool.false_and]
  · rw [decide_eq_true above, Bool.true_and, Bool.true_and, Nat.sub_add_cancel above]

theorem field_eq_and (word : UInt32) (place width : Nat) :
    field word place width = word.toNat / 2 ^ place &&& (2 ^ width - 1) :=
  (Nat.and_two_pow_sub_one_eq_mod ..).symm

section Word

variable {word : UInt32}

theorem scaled_load (load : field word 22 2 = 1) : word &&& 0xC00000 = 0x400000 := by
  rw [field_eq_and] at load
  rw [← UInt32.toNat_inj, UInt32.toNat_and]
  change word.toNat &&& ((2 ^ 2 - 1) <<< 22) = _
  rw [and_shiftLeft, load]
  rfl

theorem unscaled_load (load : field word 22 2 = 1) (above : field word 21 1 = 0)
    (below : field word 10 2 = 0) :
    word &&& 0xE00C00 = 0x400000 := by
  have upper : field word 21 3 = 2 := by
    unfold field at *
    omega
  rw [field_eq_and] at upper below
  rw [← UInt32.toNat_inj, UInt32.toNat_and]
  change word.toNat &&& ((2 ^ 3 - 1) <<< 21 ||| (2 ^ 2 - 1) <<< 10) = _
  rw [Nat.and_or_distrib_left, and_shiftLeft, and_shiftLeft, upper, below]
  rfl

theorem toNat_field (mask : UInt32) {place width : Nat} (inside : place < 32)
    (masks : mask.toNat = 2 ^ width - 1) :
    ((word >>> UInt32.ofNat place) &&& mask).toNat = field word place width := by
  have shift : (UInt32.ofNat place).toNat % 32 = place := by
    rw [UInt32.toNat_ofNat', Nat.mod_mod_of_dvd _ (by decide), Nat.mod_eq_of_lt inside]
  rw [UInt32.toNat_and, UInt32.toNat_shiftRight, shift, masks, Nat.and_two_pow_sub_one_eq_mod,
    Nat.shiftRight_eq_div_pow]
  rfl

theorem toUInt64_field (mask : UInt32) {place width : Nat} (inside : place < 32)
    (masks : mask.toNat = 2 ^ width - 1) :
    ((word >>> UInt32.ofNat place) &&& mask).toUInt64 = UInt64.ofNat (field word place width) := by
  rw [← toNat_field mask inside masks, ← UInt32.toNat_toUInt64, UInt64.ofNat_toNat]

theorem simm9_eq (word : UInt32) : simm9 word = UInt64.ofInt (signed9 (field word 12 9)) := by
  have all : ∀ bits < 2 ^ 9,
      (if UInt64.ofNat bits &&& 0x100 = 0 then UInt64.ofNat bits else UInt64.ofNat bits - 0x200) =
      UInt64.ofInt (signed9 bits) := by decide +kernel
  rw [← all (field word 12 9) (Nat.mod_lt _ (by decide)),
    ← @toUInt64_field word 0x1FF 12 9 (by decide) rfl]
  rfl

theorem scaled_eq (word : UInt32) (size : Nat) :
    ((word >>> 10) &&& 0xFFF).toUInt64 * UInt64.ofNat size =
    UInt64.ofInt ((field word 10 12 : Int) * size) := by
  rw [← Nat.cast_mul, ofInt_natCast, UInt64.ofNat_mul,
    ← @toUInt64_field word 0xFFF 10 12 (by decide) rfl]
  rfl

end Word

theorem of_decodeMove {word : UInt32} {size : Nat} {dst base : A64Reg} {offset : Int}
    (load : decodeMove word = some (.load size dst base offset)) :
    field word 22 2 = 1 ∧ moveSize word = size ∧ rd word = dst ∧ rn word = base ∧
      moveOffset word = some offset := by
  unfold decodeMove at load
  cases known : moveOffset word with
  | none =>
    rw [known] at load
    cases load
  | some found =>
    rw [known, Option.bind_some] at load
    by_cases store : field word 22 2 = 0
    · rw [if_pos store] at load
      cases load
    · rw [if_neg store] at load
      by_cases loads : field word 22 2 = 1
      · rw [if_pos loads] at load
        cases load
        exact ⟨loads, rfl, rfl, rfl, rfl⟩
      · rw [if_neg loads] at load
        cases load

theorem decodeLoad_scaled {word : UInt32} (size : Nat) (loads : field word 22 2 = 1) :
    decodeLoad size true word =
    some (.load size (rd word) (rn word) (UInt64.ofInt ((field word 10 12 : Int) * size))) := by
  rw [decodeLoad, if_pos rfl, if_pos (scaled_load loads), scaled_eq]

theorem decodeLoad_unscaled {word : UInt32} (size : Nat) (loads : field word 22 2 = 1)
    (above : field word 21 1 = 0)
    (below : field word 10 2 = 0) : decodeLoad size false word =
    some (.load size (rd word) (rn word) (UInt64.ofInt (signed9 (field word 12 9)))) := by
  rw [decodeLoad, if_neg (by decide), if_pos (unscaled_load loads above below), simm9_eq]

/-- The eight bits that the processor looks at first are the size and the form. -/
theorem toNat_top (word : UInt32) :
    (word >>> 24).toNat = field word 30 2 * 64 + field word 24 6 := by
  have small := word.toNat_lt
  rw [UInt32.toNat_shiftRight, Nat.shiftRight_eq_div_pow]
  change word.toNat / 2 ^ 24 = _
  unfold field
  omega

theorem decode_of_decodeMove {word : UInt32} {size : Nat} {dst base : A64Reg} {offset : Int}
    (load : decodeMove word = some (.load size dst base offset)) :
    decode word = some (.load size dst base (UInt64.ofInt offset)) := by
  obtain ⟨loads, rfl, rfl, rfl, known⟩ := of_decodeMove load
  have top := toNat_top word
  have powers : field word 30 2 < 4 := Nat.mod_lt _ (by decide)
  unfold moveOffset at known
  by_cases scaled : field word 24 6 = 0b111001
  · rw [if_pos scaled, Option.some.injEq] at known
    subst known
    rw [scaled] at top
    unfold moveSize decode
    generalize field word 30 2 = power at powers top
    interval_cases power <;> rw [top] <;> exact decodeLoad_scaled _ loads
  · rw [if_neg scaled] at known
    by_cases unscaled : field word 24 6 = 0b111000 ∧ field word 21 1 = 0 ∧ field word 10 2 = 0
    · rw [if_pos unscaled, Option.some.injEq] at known
      subst known
      rw [unscaled.1] at top
      unfold moveSize decode
      generalize field word 30 2 = power at powers top
      interval_cases power <;> rw [top] <;> exact decodeLoad_unscaled _ loads
        unscaled.2.1 unscaled.2.2
    · rw [if_neg unscaled] at known
      cases known

/-- A load at an offset of its own range, as the processor decodes it. -/
theorem Encodes.decode {emit : A64Reg → A64Reg → Int32 → UInt32} {size : Nat}
    (encodes : Encodes emit size .load)
    {offset : Nat} (small : offset < 2 ^ 31) (reaches : Reaches size offset) (dst base : A64Reg) :
    decode (emit dst base (Int32.ofNat offset)) =
      some (.load size dst base (UInt64.ofNat offset)) := by
  have value : (Int32.ofNat offset).toInt = offset := Int32.toInt_ofNat_of_lt small
  have found := encodes dst base (Int32.ofNat offset) (value.symm ▸ reaches)
  rw [decode_of_decodeMove found, value, ofInt_natCast]

theorem does_movImm64_xzr (imm : UInt64) (state : A64State) :
    Does (movX64Imm64 .xzr imm) state state := by
  have movz : ∀ part, Does [movzX64 .xzr part 0] state state := fun part =>
    does_of_decode (decode_movzX64 .xzr part (.inl rfl)) (by simp) state
  have movk : ∀ part shift, IsShift shift → Does [movkX64 .xzr part shift] state state :=
    fun part shift isShift =>
    does_of_decode (decode_movkX64 .xzr part isShift) (by simp) state
  have optional : ∀ (mask : UInt64) part shift, IsShift shift →
      Does (if imm &&& mask ≠ 0 then [movkX64 .xzr part shift] else []) state state := by
    intro mask part shift isShift
    split
    · exact movk part shift isShift
    · exact .refl state
  exact (((movz _).trans (optional _ _ 16 (.inr (.inl rfl)))).trans
    (optional _ _ 32 (.inr (.inr (.inl rfl))))).trans
    (optional _ _ 48 (.inr (.inr (.inr rfl))))

/-- Every general register takes every constant, every word of an access has the offset asked for.
-/
theorem immediates_offsets :
    (∀ dst imm state, ∃ after, Does (movX64Imm64 dst imm) state after ∧
      if dst = .xzr then after = state else Writes dst imm state after) ∧
    Encodes ldrX64 8 .load ∧ Encodes ldrW32 4 .load ∧ Encodes ldrh 2 .load ∧ Encodes ldrb 1 .load ∧
    Encodes strX64 8 .store := by
  refine ⟨?_, encodes_ldrX64, encodes_ldrW32, encodes_ldrh, encodes_ldrb, encodes_strX64⟩
  intro dst imm state
  by_cases zero : dst = .xzr
  · subst zero
    exact ⟨state, does_movImm64_xzr imm state, by rw [if_pos rfl]⟩
  · obtain ⟨after, does, writes⟩ := does_movImm64 zero imm state
    exact ⟨after, does, by rwa [if_neg zero]⟩

/-- A state with zero everywhere. -/
def blank : A64State where
  regs := fun _ => 0
  flags := ⟨false, false, false, false⟩
  memory := fun _ => 0

theorem immediates_offsets_blank :
    (∃ after, Does (movX64Imm64 .x0 0x123400005678) blank after ∧
      if A64Reg.x0 = .xzr then after = blank else Writes .x0 0x123400005678 blank after) ∧
    decodeMove (ldrX64 .x0 .x1 (-8)) = some (.load 8 .x0 .x1 (-8)) ∧
    decodeMove (strX64 .x2 .sp 32760) = some (.store 8 .x2 .sp 32760) := by
  obtain ⟨constant, load, -, -, -, store⟩ := immediates_offsets
  exact ⟨constant .x0 0x123400005678 blank, load .x0 .x1 (-8) (.inl (by decide)),
    store .x2 .sp 32760 (.inr (by decide))⟩

theorem movX64Imm64_xzr_one :
    ¬ ∃ after, Does (movX64Imm64 .xzr 1) blank after ∧
      (read after .xzr = 1 ∨ after.regs .xzr = 1) := by
  rintro ⟨after, does, held⟩
  -- A return behind the code shows the state it leaves.
  have same : some (read after .x30, after) = some (read blank .x30, blank) := by
    rw [← run_ret .x30 [] after, ← run_ret .x30 [] blank, ← does]
    exact does_movImm64_xzr 1 blank _
  obtain rfl : after = blank := (Prod.mk.inj (Option.some.inj same)).2
  revert held
  decide

end A64

end VectorTick.Jit
