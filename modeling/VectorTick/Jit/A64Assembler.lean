import Mathlib.Tactic
import VectorTick.Foundation.AddressSpace

/-! The AArch64 assembler, and what a processor makes of its words.

The assembler is followed as far as the code generator uses it. The decoder follows the fixed bits
of the encodings, the upper eight of them first. -/

set_option autoImplicit false

namespace VectorTick.Jit

open Foundation

/-- Number 31 is the stack pointer or the zero register, as the instruction has it. -/
inductive A64Reg where
  | x0 | x1 | x2 | x3 | x4 | x5 | x6 | x7 | x8 | x9 | x10 | x11 | x12 | x13 | x14 | x15
  | x16 | x17 | x18 | x19 | x20 | x21 | x22 | x23 | x24 | x25 | x26 | x27 | x28 | x29 | x30 | sp
  deriving DecidableEq, Repr

namespace A64Reg

def xzr : A64Reg := sp

instance : Fintype A64Reg where
  elems := {x0, x1, x2, x3, x4, x5, x6, x7, x8, x9, x10, x11, x12, x13, x14, x15,
    x16, x17, x18, x19, x20, x21, x22, x23, x24, x25, x26, x27, x28, x29, x30, sp}
  complete := by intro r; cases r <;> decide

def value : A64Reg → UInt32
  | x0 => 0 | x1 => 1 | x2 => 2 | x3 => 3 | x4 => 4 | x5 => 5 | x6 => 6 | x7 => 7
  | x8 => 8 | x9 => 9 | x10 => 10 | x11 => 11 | x12 => 12 | x13 => 13 | x14 => 14 | x15 => 15
  | x16 => 16 | x17 => 17 | x18 => 18 | x19 => 19 | x20 => 20 | x21 => 21 | x22 => 22 | x23 => 23
  | x24 => 24 | x25 => 25 | x26 => 26 | x27 => 27 | x28 => 28 | x29 => 29 | x30 => 30 | sp => 31

/-- The register of five bits. -/
def ofBits (bits : UInt32) : A64Reg :=
  match bits.toNat % 32 with
  | 0 => x0 | 1 => x1 | 2 => x2 | 3 => x3 | 4 => x4 | 5 => x5 | 6 => x6 | 7 => x7
  | 8 => x8 | 9 => x9 | 10 => x10 | 11 => x11 | 12 => x12 | 13 => x13 | 14 => x14 | 15 => x15
  | 16 => x16 | 17 => x17 | 18 => x18 | 19 => x19 | 20 => x20 | 21 => x21 | 22 => x22 | 23 => x23
  | 24 => x24 | 25 => x25 | 26 => x26 | 27 => x27 | 28 => x28 | 29 => x29 | 30 => x30 | _ => sp

end A64Reg

inductive A64Condition where
  | eq | ne | hs | lo | mi | pl | vs | vc | hi | ls | ge | lt | gt | le | al | nv
  deriving DecidableEq, Repr

namespace A64Condition

instance : Fintype A64Condition where
  elems := {eq, ne, hs, lo, mi, pl, vs, vc, hi, ls, ge, lt, gt, le, al, nv}
  complete := by intro cond; cases cond <;> decide

def value : A64Condition → UInt32
  | eq => 0x0 | ne => 0x1 | hs => 0x2 | lo => 0x3 | mi => 0x4 | pl => 0x5 | vs => 0x6 | vc => 0x7
  | hi => 0x8 | ls => 0x9 | ge => 0xA | lt => 0xB | gt => 0xC | le => 0xD | al => 0xE | nv => 0xF

def ofBits (bits : UInt32) : A64Condition :=
  match bits.toNat % 16 with
  | 0x0 => eq | 0x1 => ne | 0x2 => hs | 0x3 => lo | 0x4 => mi | 0x5 => pl | 0x6 => vs | 0x7 => vc
  | 0x8 => hi | 0x9 => ls | 0xA => ge | 0xB => lt | 0xC => gt | 0xD => le | 0xE => al | _ => nv

end A64Condition

-- Each function gives the word that it appends to the code.

namespace A64Assembler

def rIdx (reg : A64Reg) : UInt32 := reg.value &&& 0x1F

/-- An instruction with a destination and two sources. -/
def threeRegs (base : UInt32) (dst src1 src2 : A64Reg) : UInt32 :=
  base ||| (rIdx src2 <<< 16) ||| (rIdx src1 <<< 5) ||| rIdx dst

def movX64X64 (dst src : A64Reg) : UInt32 :=
  (0xAA0003E0 : UInt32) ||| (rIdx src <<< 16) ||| rIdx dst

/-- A part of sixteen bits at a shift of 0, 16, 32 or 48. -/
def movWide (base : UInt32) (dst : A64Reg) (imm : UInt16) (shift : UInt8) : UInt32 :=
  base ||| (((shift / 16) &&& 3).toUInt32 <<< 21) ||| (imm.toUInt32 <<< 5) ||| rIdx dst

def movzX64 (dst : A64Reg) (imm : UInt16) (shift : UInt8) : UInt32 :=
  movWide 0xD2800000 dst imm shift
def movkX64 (dst : A64Reg) (imm : UInt16) (shift : UInt8) : UInt32 :=
  movWide 0xF2800000 dst imm shift

/-- The parts that are zero are left out, but for the lowest. -/
def movX64Imm64 (dst : A64Reg) (imm : UInt64) : List UInt32 :=
  [movzX64 dst (imm &&& 0xFFFF).toUInt16 0] ++
    (if imm &&& 0xFFFF0000 ≠ 0 then [movkX64 dst ((imm >>> 16) &&& 0xFFFF).toUInt16 16] else []) ++
    (if imm &&& 0xFFFF00000000 ≠ 0 then
      [movkX64 dst ((imm >>> 32) &&& 0xFFFF).toUInt16 32] else []) ++
    (if imm &&& 0xFFFF000000000000 ≠ 0 then
      [movkX64 dst ((imm >>> 48) &&& 0xFFFF).toUInt16 48] else [])

def addX64X64X64 (dst src1 src2 : A64Reg) : UInt32 := threeRegs 0x8B000000 dst src1 src2
def subX64X64X64 (dst src1 src2 : A64Reg) : UInt32 := threeRegs 0xCB000000 dst src1 src2
def mulX64X64X64 (dst src1 src2 : A64Reg) : UInt32 := threeRegs 0x9B007C00 dst src1 src2
def udivX64X64X64 (dst src1 src2 : A64Reg) : UInt32 := threeRegs 0x9AC00800 dst src1 src2
def sdivX64X64X64 (dst src1 src2 : A64Reg) : UInt32 := threeRegs 0x9AC00C00 dst src1 src2
def andX64X64X64 (dst src1 src2 : A64Reg) : UInt32 := threeRegs 0x8A000000 dst src1 src2
def orrX64X64X64 (dst src1 src2 : A64Reg) : UInt32 := threeRegs 0xAA000000 dst src1 src2
def eorX64X64X64 (dst src1 src2 : A64Reg) : UInt32 := threeRegs 0xCA000000 dst src1 src2

def cmpX64X64 (src1 src2 : A64Reg) : UInt32 :=
  (0xEB00001F : UInt32) ||| (rIdx src2 <<< 16) ||| (rIdx src1 <<< 5)

def ret (target : A64Reg) : UInt32 := (0xD65F0000 : UInt32) ||| (rIdx target <<< 5)

/-- A load at an offset: scaled by the size where it can be, else unscaled. -/
def loadAt (scaled unscaled : UInt32) (size limit : Int32) (dst base : A64Reg)
    (offset : Int32) : UInt32 :=
  if offset ≥ 0 ∧ offset &&& (size - 1) = 0 ∧ offset ≤ limit then
    scaled ||| (((offset / size).toUInt32 &&& 0xFFF) <<< 10) ||| (rIdx base <<< 5) ||| rIdx dst
  else unscaled ||| ((offset.toUInt32 &&& 0x1FF) <<< 12) ||| (rIdx base <<< 5) ||| rIdx dst

def ldrX64 (dst base : A64Reg) (offset : Int32) : UInt32 :=
  loadAt 0xF9400000 0xF8400000 8 32760 dst base offset
def ldrW32 (dst base : A64Reg) (offset : Int32) : UInt32 :=
  loadAt 0xB9400000 0xB8400000 4 16380 dst base offset
def ldrh (dst base : A64Reg) (offset : Int32) : UInt32 :=
  loadAt 0x79400000 0x78400000 2 8190 dst base offset
def ldrb (dst base : A64Reg) (offset : Int32) : UInt32 :=
  loadAt 0x39400000 0x38400000 1 4095 dst base offset

def stpPre (src1 src2 base : A64Reg) (offset : Int32) : UInt32 :=
  (0xA9800000 : UInt32) ||| ((3 : UInt32) <<< 23) ||| (((offset / 8).toUInt32 &&& 0x7F) <<< 15) |||
    (rIdx src2 <<< 10) ||| (rIdx base <<< 5) |||
    rIdx src1

def ldpPost (dst1 dst2 base : A64Reg) (offset : Int32) : UInt32 :=
  (0xA8C00000 : UInt32) ||| ((1 : UInt32) <<< 23) ||| (((offset / 8).toUInt32 &&& 0x7F) <<< 15) |||
    (rIdx dst2 <<< 10) ||| (rIdx base <<< 5) |||
    rIdx dst1

def cselX64 (dst src1 src2 : A64Reg) (cond : A64Condition) : UInt32 :=
  (0x9A800000 : UInt32) ||| (rIdx src2 <<< 16) ||| (cond.value <<< 12) ||| (rIdx
    src1 <<< 5) ||| rIdx dst

def csetX64 (dst : A64Reg) (cond : A64Condition) : UInt32 :=
  (0x9A9F07E0 : UInt32) ||| ((cond.value ^^^ 1) <<< 12) ||| rIdx dst

def nop : UInt32 := 0xD503201F

end A64Assembler

inductive DataOp where
  | add | sub | mul | udiv | sdiv | and | orr | eor
  deriving DecidableEq, Repr

inductive A64Instruction where
  | nop
  | data (op : DataOp) (dst src1 src2 : A64Reg)
  | subs (dst src1 src2 : A64Reg)
  -- Part `part` of the register, counted from the lowest, and zero elsewhere.
  | movz (dst : A64Reg) (imm : UInt64) (part : UInt64)
  | movk (dst : A64Reg) (imm : UInt64) (part : UInt64)
  | csel (dst src1 src2 : A64Reg) (cond : A64Condition)
  | csinc (dst src1 src2 : A64Reg) (cond : A64Condition)
  -- `size` bytes at an offset from a base, extended with zeros.
  | load (size : Nat) (dst base : A64Reg) (offset : UInt64)
  | stpPre (src1 src2 base : A64Reg) (offset : UInt64)
  | ldpPost (dst1 dst2 base : A64Reg) (offset : UInt64)
  | ret (target : A64Reg)
  deriving DecidableEq, Repr

namespace A64

def rd (word : UInt32) : A64Reg := .ofBits (word &&& 0x1F)
def rn (word : UInt32) : A64Reg := .ofBits ((word >>> 5) &&& 0x1F)
def rm (word : UInt32) : A64Reg := .ofBits ((word >>> 16) &&& 0x1F)
def rt2 (word : UInt32) : A64Reg := .ofBits ((word >>> 10) &&& 0x1F)
def condition (word : UInt32) : A64Condition := .ofBits ((word >>> 12) &&& 0xF)

/-- Nine bits with a sign. -/
def simm9 (word : UInt32) : UInt64 :=
  let bits := ((word >>> 12) &&& 0x1FF).toUInt64
  if bits &&& 0x100 = 0 then bits else bits - 0x200

/-- Seven bits with a sign, in units of eight bytes. -/
def simm7 (word : UInt32) : UInt64 :=
  let bits := ((word >>> 15) &&& 0x7F).toUInt64
  (if bits &&& 0x40 = 0 then bits else bits - 0x80) * 8

def data (op : DataOp) (word : UInt32) : A64Instruction := .data op (rd word) (rn word) (rm word)

/-- A load with a scaled or an unscaled offset. -/
def decodeLoad (size : Nat) (scaled : Bool) (word : UInt32) : Option A64Instruction :=
  if scaled then
    if word &&& 0xC00000 = 0x400000 then
      some (.load size (rd word) (rn word) (((word >>> 10) &&& 0xFFF).toUInt64 * UInt64.ofNat size))
    else none
  else if word &&& 0xE00C00 = 0x400000 then
    some (.load size (rd word) (rn word) (simm9 word)) else none

/-- Division and conditional selection. -/
def decodeSelect (word : UInt32) : Option A64Instruction :=
  if word &&& 0xE0FC00 = 0xC00800 then some (data .udiv word)
  else if word &&& 0xE0FC00 = 0xC00C00 then some (data .sdiv word)
  else if word &&& 0xE00C00 = 0x800000 then
    some (.csel (rd word) (rn word) (rm word) (condition word))
  else if word &&& 0xE00C00 = 0x800400 then
    some (.csinc (rd word) (rn word) (rm word) (condition word))
  else none

def decode (word : UInt32) : Option A64Instruction :=
  let plain := word &&& 0xE0FC00 = 0
  match (word >>> 24).toNat with
  | 0x8A => if plain then some (data .and word) else none
  | 0x8B => if plain then some (data .add word) else none
  | 0xAA => if plain then some (data .orr word) else none
  | 0xCA => if plain then some (data .eor word) else none
  | 0xCB => if plain then some (data .sub word) else none
  | 0xEB => if plain then some (.subs (rd word) (rn word) (rm word)) else none
  -- A multiplication adds a third source, which is the zero register.
  | 0x9B => if word &&& 0xE0FC00 = 0x7C00 then some (data .mul word) else none
  | 0x9A => decodeSelect word
  | 0xD2 =>
    if (word >>> 23) &&& 1 = 1 then
      some (.movz (rd word) ((word >>> 5) &&& 0xFFFF).toUInt64 ((word >>> 21) &&& 3).toUInt64)
    else none
  | 0xF2 =>
    if (word >>> 23) &&& 1 = 1 then
      some (.movk (rd word) ((word >>> 5) &&& 0xFFFF).toUInt64 ((word >>> 21) &&& 3).toUInt64)
    else none
  | 0xF9 => decodeLoad 8 true word
  | 0xB9 => decodeLoad 4 true word
  | 0x79 => decodeLoad 2 true word
  | 0x39 => decodeLoad 1 true word
  | 0xF8 => decodeLoad 8 false word
  | 0xB8 => decodeLoad 4 false word
  | 0x78 => decodeLoad 2 false word
  | 0x38 => decodeLoad 1 false word
  | 0xA9 => if word &&& 0xC00000 = 0x800000 then
      some (.stpPre (rd word) (rt2 word) (rn word) (simm7 word)) else none
  | 0xA8 => if word &&& 0xC00000 = 0xC00000 then
      some (.ldpPost (rd word) (rt2 word) (rn word) (simm7 word)) else none
  | 0xD6 => if word &&& 0xFFFC1F = 0x5F0000 then some (.ret (rn word)) else none
  | 0xD5 => if word = 0xD503201F then some .nop else none
  | _ => none

open A64Assembler

theorem or_and_distrib (a b c : UInt32) : (a ||| b) &&& c = (a &&& c) ||| (b &&& c) := by
  rw [← UInt32.toBitVec_inj]
  simp only [UInt32.toBitVec_and, UInt32.toBitVec_or, BitVec.and_or_distrib_right]

theorem or_right_comm (a b c : UInt32) : a ||| b ||| c = a ||| c ||| b := by
  rw [UInt32.or_assoc, UInt32.or_comm b c, UInt32.or_assoc]

theorem ofBits_rIdx : ∀ reg, A64Reg.ofBits (rIdx reg) = reg := by decide

/-- What a register in the lowest bits contributes to the fields of a word. -/
theorem low_bits : ∀ reg, rIdx reg >>> 24 = 0 ∧ rIdx reg &&& 0xE0FC00 = 0 ∧
    rIdx reg &&& 0xE00C00 = 0 ∧
    rIdx reg &&& 0x1F = rIdx reg ∧ (rIdx reg >>> 5) &&& 0x1F = 0 ∧ (rIdx reg >>> 16) &&& 0x1F = 0 ∧
    (rIdx reg >>> 12) &&& 0xF = 0 := by decide

theorem middle_bits : ∀ reg, (rIdx reg <<< 5) >>> 24 = 0 ∧ (rIdx reg <<< 5) &&& 0xE0FC00 = 0 ∧
    (rIdx reg <<< 5) &&& 0xE00C00 = 0 ∧ (rIdx reg <<< 5) &&& 0x1F = 0 ∧
    ((rIdx reg <<< 5) >>> 5) &&& 0x1F = rIdx reg ∧ ((rIdx reg <<< 5) >>> 16) &&& 0x1F = 0 ∧
    ((rIdx reg <<< 5) >>> 12) &&& 0xF = 0 := by decide

theorem high_bits : ∀ reg, (rIdx reg <<< 16) >>> 24 = 0 ∧ (rIdx reg <<< 16) &&& 0xE0FC00 = 0 ∧
    (rIdx reg <<< 16) &&& 0xE00C00 = 0 ∧ (rIdx reg <<< 16) &&& 0x1F = 0 ∧
      ((rIdx reg <<< 16) >>> 5) &&& 0x1F = 0 ∧
    ((rIdx reg <<< 16) >>> 16) &&& 0x1F = rIdx reg ∧
      ((rIdx reg <<< 16) >>> 12) &&& 0xF = 0 := by decide

section ThreeRegs

variable (dst src1 src2 : A64Reg) (base : UInt32)

/-- The bits of a word that hold no register are those of its base. -/
theorem fixed_threeRegs : threeRegs base dst src1 src2 >>> 24 = base >>> 24 ∧
    threeRegs base dst src1 src2 &&& 0xE0FC00 = base &&& 0xE0FC00 ∧
    threeRegs base dst src1 src2 &&& 0xE00C00 = base &&& 0xE00C00 ∧
    (threeRegs base dst src1 src2 >>> 12) &&& (0xF : UInt32) =
      (base >>> 12) &&& (0xF : UInt32) := by
  obtain ⟨low1, low2, low3, -, -, -, low4⟩ := low_bits dst
  obtain ⟨middle1, middle2, middle3, -, -, -, middle4⟩ := middle_bits src1
  obtain ⟨high1, high2, high3, -, -, -, high4⟩ := high_bits src2
  unfold threeRegs
  simp only [UInt32.shiftRight_or, or_and_distrib, low1, low2, low3, low4, middle1, middle2,
    middle3, middle4, high1, high2, high3, high4, UInt32.or_zero, and_self]

/-- A base without bits in the fields of the registers. -/
def Free (base : UInt32) : Prop :=
  base &&& 0x1F = 0 ∧ (base >>> 5) &&& 0x1F = 0 ∧ (base >>> 16) &&& 0x1F = 0

instance : Decidable (Free base) :=
  inferInstanceAs
    (Decidable (base &&& 0x1F = 0 ∧ (base >>> 5) &&& 0x1F = 0 ∧ (base >>> 16) &&& 0x1F = 0))

theorem registers_threeRegs (free : Free base) : rd (threeRegs base dst src1 src2) = dst ∧
    rn (threeRegs base dst src1 src2) = src1 ∧ rm (threeRegs base dst src1 src2) = src2 := by
  obtain ⟨-, -, -, low1, low2, low3, -⟩ := low_bits dst
  obtain ⟨-, -, -, middle1, middle2, middle3, -⟩ := middle_bits src1
  obtain ⟨-, -, -, high1, high2, high3, -⟩ := high_bits src2
  obtain ⟨base1, base2, base3⟩ := free
  unfold threeRegs rd rn rm
  simp only [UInt32.shiftRight_or, or_and_distrib, low1, low2, low3, middle1, middle2, middle3,
    high1, high2, high3, base1, base2, base3, UInt32.or_zero, UInt32.zero_or, ofBits_rIdx, and_self]

/-- The fixed bits decide what an instruction is. -/
theorem decode_threeRegs (make : A64Reg → A64Reg → A64Reg → A64Instruction) (free : Free base)
    (known : ∀ word : UInt32, word >>> 24 = base >>> 24 → word &&& 0xE0FC00 = base &&& 0xE0FC00 →
      word &&& 0xE00C00 = base &&& 0xE00C00 →
        (word >>> 12) &&& (0xF : UInt32) = (base >>> 12) &&& (0xF : UInt32) →
      decode word = some (make (rd word) (rn word) (rm word))) :
    decode (threeRegs base dst src1 src2) = some (make dst src1 src2) := by
  obtain ⟨top, narrow, wide, cond⟩ := fixed_threeRegs dst src1 src2 base
  obtain ⟨first, second, third⟩ := registers_threeRegs dst src1 src2 base free
  rw [known _ top narrow wide cond, first, second, third]

theorem decode_addX64X64X64 : decode (addX64X64X64 dst src1 src2) =
    some (.data .add dst src1 src2) := by
  refine decode_threeRegs dst src1 src2 0x8B000000 (.data .add)
    (by decide) fun word top narrow _ _ => ?_
  unfold decode
  rw [top, narrow]
  rfl

theorem decode_subX64X64X64 : decode (subX64X64X64 dst src1 src2) =
    some (.data .sub dst src1 src2) := by
  refine decode_threeRegs dst src1 src2 0xCB000000 (.data .sub)
    (by decide) fun word top narrow _ _ => ?_
  unfold decode
  rw [top, narrow]
  rfl

theorem decode_mulX64X64X64 : decode (mulX64X64X64 dst src1 src2) =
    some (.data .mul dst src1 src2) := by
  refine decode_threeRegs dst src1 src2 0x9B007C00 (.data .mul)
    (by decide) fun word top narrow _ _ => ?_
  unfold decode
  rw [top, narrow]
  rfl

theorem decode_udivX64X64X64 : decode (udivX64X64X64 dst src1 src2) =
    some (.data .udiv dst src1 src2) := by
  refine decode_threeRegs dst src1 src2 0x9AC00800 (.data .udiv)
    (by decide) fun word top narrow _ _ => ?_
  unfold decode decodeSelect
  rw [top, narrow]
  rfl

theorem decode_sdivX64X64X64 : decode (sdivX64X64X64 dst src1 src2) =
    some (.data .sdiv dst src1 src2) := by
  refine decode_threeRegs dst src1 src2 0x9AC00C00 (.data .sdiv)
    (by decide) fun word top narrow _ _ => ?_
  unfold decode decodeSelect
  rw [top, narrow]
  rfl

theorem decode_andX64X64X64 : decode (andX64X64X64 dst src1 src2) =
    some (.data .and dst src1 src2) := by
  refine decode_threeRegs dst src1 src2 0x8A000000 (.data .and)
    (by decide) fun word top narrow _ _ => ?_
  unfold decode
  rw [top, narrow]
  rfl

theorem decode_orrX64X64X64 : decode (orrX64X64X64 dst src1 src2) =
    some (.data .orr dst src1 src2) := by
  refine decode_threeRegs dst src1 src2 0xAA000000 (.data .orr)
    (by decide) fun word top narrow _ _ => ?_
  unfold decode
  rw [top, narrow]
  rfl

theorem decode_eorX64X64X64 : decode (eorX64X64X64 dst src1 src2) =
    some (.data .eor dst src1 src2) := by
  refine decode_threeRegs dst src1 src2 0xCA000000 (.data .eor)
    (by decide) fun word top narrow _ _ => ?_
  unfold decode
  rw [top, narrow]
  rfl

/-- A move is a disjunction with the zero register. -/
theorem decode_movX64X64 : decode (movX64X64 dst src1) = some (.data .orr dst .xzr src1) := by
  have same : movX64X64 dst src1 = orrX64X64X64 dst .xzr src1 := by
    unfold movX64X64 orrX64X64X64 threeRegs
    rw [show (0xAA0003E0 : UInt32) = (0xAA000000 : UInt32) ||| (rIdx .xzr <<< 5) from rfl,
      or_right_comm 0xAA000000]
  rw [same, decode_orrX64X64X64]

/-- A comparison is a subtraction into the zero register. -/
theorem decode_cmpX64X64 : decode (cmpX64X64 src1 src2) = some (.subs .xzr src1 src2) := by
  have same : cmpX64X64 src1 src2 = threeRegs 0xEB000000 .xzr src1 src2 := by
    unfold cmpX64X64 threeRegs
    rw [show (0xEB00001F : UInt32) = (0xEB000000 : UInt32) ||| rIdx .xzr from rfl,
      or_right_comm 0xEB000000, or_right_comm]
  rw [same]
  refine decode_threeRegs .xzr src1 src2 0xEB000000 .subs (by decide) fun word top narrow _ _ => ?_
  unfold decode
  rw [top, narrow]
  rfl

theorem decode_cselX64 (cond : A64Condition) :
    decode (cselX64 dst src1 src2 cond) = some (.csel dst src1 src2 cond) := by
  have same : cselX64 dst src1 src2 cond =
      threeRegs ((0x9A800000 : UInt32) ||| (cond.value <<< 12)) dst src1 src2 := by
    unfold cselX64 threeRegs
    rw [or_right_comm 0x9A800000]
  rw [same]
  refine decode_threeRegs dst src1 src2 _ (fun a b c => .csel a b c cond) (by cases cond <;> decide)
    fun word top narrow wide bits => ?_
  unfold decode decodeSelect condition
  rw [top, narrow, wide, bits]
  cases cond <;> rfl

/-- Setting a register is an increment of zero under the opposite condition. -/
def inverse (cond : A64Condition) : A64Condition := .ofBits (cond.value ^^^ 1)

theorem decode_csetX64 (cond : A64Condition) :
    decode (csetX64 dst cond) = some (.csinc dst .xzr .xzr (inverse cond)) := by
  have same : csetX64 dst cond =
      threeRegs ((0x9A800400 : UInt32) ||| ((cond.value ^^^ 1) <<< 12)) dst .xzr .xzr := by
    unfold csetX64 threeRegs
    rw [show (0x9A9F07E0 : UInt32) =
      (0x9A800400 : UInt32) ||| (rIdx .xzr <<< 16) ||| (rIdx .xzr <<< 5) from rfl,
      or_right_comm _ (rIdx .xzr <<< 5), or_right_comm 0x9A800400]
  rw [same]
  refine decode_threeRegs dst .xzr .xzr _ (fun a b c => .csinc a b c (inverse cond))
    (by cases cond <;> decide)
    fun word top narrow wide bits => ?_
  unfold decode decodeSelect condition
  rw [top, narrow, wide, bits]
  cases cond <;> rfl

end ThreeRegs

section Wide

variable (dst : A64Reg) (imm : UInt16)

theorem toNat_imm_shifted : (imm.toUInt32 <<< 5).toNat = imm.toNat * 32 := by
  have small := imm.toNat_lt
  rw [UInt32.toNat_shiftLeft, UInt16.toNat_toUInt32]
  change imm.toNat <<< 5 % 2 ^ 32 = _
  rw [Nat.shiftLeft_eq]
  omega

/-- What sixteen bits of an immediate contribute to the fields of a word. -/
theorem imm_bits : (imm.toUInt32 <<< 5) >>> 24 = 0 ∧
    ((imm.toUInt32 <<< 5) >>> 23) &&& (1 : UInt32) = 0 ∧
    (imm.toUInt32 <<< 5) &&& (0x1F : UInt32) = 0 ∧
      ((imm.toUInt32 <<< 5) >>> 21) &&& (3 : UInt32) = 0 ∧
    ((imm.toUInt32 <<< 5) >>> 5) &&& (0xFFFF : UInt32) = imm.toUInt32 := by
  have small := imm.toNat_lt
  have place := toNat_imm_shifted imm
  have above : ∀ shift : UInt32, 21 ≤ shift.toNat % 32 → (imm.toUInt32 <<< 5) >>> shift = 0 := by
    intro shift far
    rw [← UInt32.toNat_inj, UInt32.toNat_shiftRight, place, Nat.shiftRight_eq_div_pow]
    refine Nat.div_eq_of_lt (Nat.lt_of_lt_of_le (show imm.toNat * 32 < 2 ^ 21 by omega) ?_)
    exact Nat.pow_le_pow_right (by decide) far
  refine ⟨above 24 (by decide), ?_, ?_, ?_, ?_⟩
  · rw [above 23 (by decide)]
    rfl
  · rw [← UInt32.toNat_inj, UInt32.toNat_and, place]
    change imm.toNat * 32 &&& (2 ^ 5 - 1) = 0
    rw [Nat.and_two_pow_sub_one_eq_mod]
    omega
  · rw [above 21 (by decide)]
    rfl
  · rw [← UInt32.toNat_inj, UInt32.toNat_and, UInt32.toNat_shiftRight, place,
      Nat.shiftRight_eq_div_pow, UInt16.toNat_toUInt32]
    change imm.toNat * 32 / 2 ^ 5 &&& (2 ^ 16 - 1) = _
    rw [Nat.and_two_pow_sub_one_eq_mod]
    omega

theorem low_bits_wide : ∀ reg, (rIdx reg >>> 23) &&& (1 : UInt32) = 0 ∧
    (rIdx reg >>> 21) &&& (3 : UInt32) = 0 ∧
    (rIdx reg >>> 5) &&& (0xFFFF : UInt32) = 0 := by decide

/-- A word whose base has no bits in the fields of the register and the immediate. -/
theorem fields_wide {base : UInt32}
    (free : base &&& 0x1F = 0 ∧ (base >>> 5) &&& (0xFFFF : UInt32) = 0) :
    let word := base ||| (imm.toUInt32 <<< 5) ||| rIdx dst
    word >>> 24 = base >>> 24 ∧ (word >>> 23) &&& (1 : UInt32) = (base >>> 23) &&& (1 : UInt32) ∧
      (word >>> 21) &&& (3 : UInt32) = (base >>> 21) &&& (3 : UInt32) ∧ rd word = dst ∧
      (word >>> 5) &&& (0xFFFF : UInt32) = imm.toUInt32 := by
  obtain ⟨imm1, imm2, imm3, imm4, imm5⟩ := imm_bits imm
  obtain ⟨low1, -, -, low2, -⟩ := low_bits dst
  obtain ⟨low3, low4, low5⟩ := low_bits_wide dst
  obtain ⟨base1, base2⟩ := free
  intro word
  simp only [word, rd, UInt32.shiftRight_or, or_and_distrib, imm1, imm2, imm3, imm4, imm5, low1,
    low2, low3, low4, low5, base1, base2, UInt32.or_zero, UInt32.zero_or, ofBits_rIdx, and_self]

/-- The four parts of a register. -/
def IsShift (shift : UInt8) : Prop := shift = 0 ∨ shift = 16 ∨ shift = 32 ∨ shift = 48

theorem decode_movzX64 {shift : UInt8} (isShift : IsShift shift) :
    decode (movzX64 dst imm shift) = some (.movz dst imm.toUInt64 (shift / 16).toUInt64) := by
  have free : ∀ shift, IsShift shift →
      ((0xD2800000 : UInt32) ||| (((shift / 16) &&& 3).toUInt32 <<< 21)) &&& 0x1F = 0 ∧
      (((0xD2800000 : UInt32) ||| (((shift / 16) &&& 3).toUInt32 <<< 21)) >>> 5) &&&
        (0xFFFF : UInt32) = 0 := by
    rintro shift (rfl | rfl | rfl | rfl) <;> decide
  obtain ⟨top, opcode, part, register, immediate⟩ := fields_wide dst imm (free shift isShift)
  unfold movzX64 movWide decode
  simp only [top, opcode, part, register, immediate]
  rcases isShift with rfl | rfl | rfl | rfl <;> rfl

theorem decode_movkX64 {shift : UInt8} (isShift : IsShift shift) :
    decode (movkX64 dst imm shift) = some (.movk dst imm.toUInt64 (shift / 16).toUInt64) := by
  have free : ∀ shift, IsShift shift →
      ((0xF2800000 : UInt32) ||| (((shift / 16) &&& 3).toUInt32 <<< 21)) &&& 0x1F = 0 ∧
      (((0xF2800000 : UInt32) ||| (((shift / 16) &&& 3).toUInt32 <<< 21)) >>> 5) &&&
        (0xFFFF : UInt32) = 0 := by
    rintro shift (rfl | rfl | rfl | rfl) <;> decide
  obtain ⟨top, opcode, part, register, immediate⟩ := fields_wide dst imm (free shift isShift)
  unfold movkX64 movWide decode
  simp only [top, opcode, part, register, immediate]
  rcases isShift with rfl | rfl | rfl | rfl <;> rfl

end Wide

theorem decode_nop : decode nop = some .nop := by decide

theorem decode_ret : ∀ target, decode (ret target) = some (.ret target) := by decide

end A64

end VectorTick.Jit
