import VectorTick.Jit.X86Assembler

/-! Loads and stores of the x86-64 assembler.

A memory operand is a base register with a displacement. The decoder follows the tables of
the instruction set manual for ModRM and SIB bytes in full: an index, no base, an address
relative to the next instruction. -/

set_option autoImplicit false

namespace VectorTick.Jit

open Foundation

namespace X86Assembler

def sib (scale index base : UInt8) : UInt8 :=
  ((scale &&& 3) <<< 6) ||| ((index &&& 7) <<< 3) ||| (base &&& 7)

/-- `emit_mem_operand`. -/
def memOperand (regOp base : X86Reg) (offset : Int32) : Bytes :=
  let r := regIndex regOp
  let b := regIndex base
  -- rsp and r12 take a second byte; rbp and r13 have no form without a displacement.
  let second := if b = 4 then [sib 0 4 b] else []
  if offset = 0 ∧ b ≠ 5 then modrm 0 r b :: second
  else if offset ≥ -128 ∧ offset ≤ 127 then modrm 1 r b :: (second ++ [offset.toInt8.toUInt8])
  else modrm 2 r b :: (second ++ u32 offset.toUInt32)

def movR64Mem (dst base : X86Reg) (offset : Int32) : Bytes :=
  rex64 dst base :: 0x8B :: memOperand dst base offset

def movMemR64 (base src : X86Reg) (offset : Int32) : Bytes :=
  rex64 src base :: 0x89 :: memOperand src base offset

end X86Assembler

inductive X86Base where
  | reg (base : X86Reg)
  | nextInstruction
  | none
  deriving DecidableEq, Repr

structure X86Operand where
  base : X86Base
  /-- The index register and the power of two it is scaled by. -/
  index : Option (X86Reg × UInt8)
  displacement : Int32
  deriving DecidableEq, Repr

inductive X86Move where
  | load (dst : X86Reg) (source : X86Operand)
  | store (destination : X86Operand) (src : X86Reg)
  deriving DecidableEq, Repr

namespace X86

def bit (byte mask : UInt8) : Bool := byte &&& mask ≠ 0

def displacement8 : Bytes → Option (Int32 × Bytes)
  | [] => none
  | byte :: rest => some (byte.toInt8.toInt32, rest)

def displacement32 (code : Bytes) : Option (Int32 × Bytes) :=
  if 4 ≤ code.length then some ((u32Of (code.take 4)).toInt32, code.drop 4) else none

/-- The displacement that goes with a mod field, behind a base register. -/
def displacement (mod : UInt8) (code : Bytes) : Option (Int32 × Bytes) :=
  if mod = 0 then some (0, code) else if mod = 1 then displacement8 code else displacement32 code

/-- The byte behind a ModRM byte whose r/m field is 4. -/
def decodeSib (x b : Bool) (mod : UInt8) : Bytes → Option (X86Operand × Bytes)
  | [] => none
  | byte :: rest =>
    let register := X86Reg.ofBits x (byte >>> 3)
    let index := if register = .rsp then none else some (register, byte >>> 6)
    if byte &&& 7 = 5 ∧ mod = 0 then
      (displacement32 rest).map fun (offset, rest) => (⟨.none, index, offset⟩, rest)
    else (displacement mod rest).map fun (offset, rest) =>
      (⟨.reg (.ofBits b byte), index, offset⟩, rest)

/-- A memory operand and the register beside it; none where the ModRM byte names two registers. -/
def decodeMemory (r x b : Bool) : Bytes → Option (X86Reg × X86Operand × Bytes)
  | [] => none
  | byte :: rest =>
    let mod := byte >>> 6
    let register := X86Reg.ofBits r (byte >>> 3)
    if mod = 3 then none
    else if byte &&& 7 = 4 then (decodeSib x b mod rest).map fun (operand, rest) =>
      (register, operand, rest)
    else if byte &&& 7 = 5 ∧ mod = 0 then
      (displacement32 rest).map fun (offset, rest) =>
        (register, ⟨.nextInstruction, none, offset⟩, rest)
    else (displacement mod rest).map fun (offset, rest) =>
      (register, ⟨.reg (.ofBits b byte), none, offset⟩, rest)

def decodeMove : Bytes → Option (X86Move × Bytes)
  | rex :: opcode :: rest =>
    if rex &&& 0xF8 = 0x48 then
      let memory := decodeMemory (bit rex 4) (bit rex 2) (bit rex 1) rest
      if opcode = 0x8B then
        memory.map fun (register, operand, rest) => (.load register operand, rest)
      else if opcode = 0x89 then
        memory.map fun (register, operand, rest) => (.store operand register, rest)
      else none
    else none
  | _ => none

open X86Assembler

theorem bits_rex64 : ∀ reg base, rex64 reg base &&& 0xF8 = 0x48 ∧
    bit (rex64 reg base) 4 = isExtended reg ∧
    bit (rex64 reg base) 2 = false ∧ bit (rex64 reg base) 1 = isExtended base := by decide

theorem fields_modrm : ∀ (mod : Fin 3) (reg base : X86Reg),
    modrm (UInt8.ofNat mod.val) (regIndex reg) (regIndex base) >>> 6 = UInt8.ofNat mod.val ∧
      X86Reg.ofBits (isExtended reg)
      (modrm (UInt8.ofNat mod.val) (regIndex reg) (regIndex base) >>> 3) = reg ∧
      X86Reg.ofBits (isExtended base)
      (modrm (UInt8.ofNat mod.val) (regIndex reg) (regIndex base)) = base ∧
      modrm (UInt8.ofNat mod.val) (regIndex reg) (regIndex base) &&& 7 = regIndex base := by decide

theorem fields_sib : ∀ base, regIndex base = 4 →
    X86Reg.ofBits false (sib 0 4 (regIndex base) >>> 3) = .rsp ∧
    X86Reg.ofBits (isExtended base) (sib 0 4 (regIndex base)) = base ∧
      sib 0 4 (regIndex base) &&& 7 ≠ 5 := by decide

theorem decodeMemory_based (reg base : X86Reg) (mod : Fin 3)
    (present : mod.val = 0 → regIndex base ≠ 5)
    {tail rest : Bytes} {offset : Int32}
    (read : displacement (UInt8.ofNat mod.val) tail = some (offset, rest)) :
    decodeMemory (isExtended reg) false (isExtended base)
        (modrm (UInt8.ofNat mod.val) (regIndex reg) (regIndex base) ::
          ((if regIndex base = 4 then [sib 0 4 (regIndex base)] else []) ++ tail)) =
      some (reg, ⟨.reg base, none, offset⟩, rest) := by
  obtain ⟨form, register, direct, low⟩ := fields_modrm mod reg base
  have memory : UInt8.ofNat mod.val ≠ 3 := by
    have forms : ∀ form : Fin 3, UInt8.ofNat form.val ≠ 3 := by decide
    exact forms mod
  have absolute : ¬ (regIndex base = 5 ∧ UInt8.ofNat mod.val = 0) := by
    have zero : ∀ form : Fin 3, UInt8.ofNat form.val = 0 → form.val = 0 := by decide
    exact fun both => present (zero mod both.2) both.1
  rw [decodeMemory]
  dsimp only
  rw [form, register, low, direct, if_neg memory]
  by_cases second : regIndex base = 4
  · obtain ⟨index, again, some⟩ := fields_sib base second
    rw [if_pos second, if_pos second, List.singleton_append, decodeSib]
    dsimp only
    rw [index, again, if_neg (fun both => some both.1), read]
    rfl
  · rw [if_neg second, if_neg second, if_neg absolute, List.nil_append, read]
    rfl

theorem displacement8_offset {offset : Int32} (low : offset ≥ -128)
    (high : offset ≤ 127) (rest : Bytes) :
    displacement8 ([offset.toInt8.toUInt8] ++ rest) = some (offset, rest) := by
  have above : -128 ≤ offset.toInt := Int32.le_iff_toInt_le.mp low
  have below : offset.toInt ≤ 127 := Int32.le_iff_toInt_le.mp high
  have same : offset.toInt8.toUInt8.toInt8.toInt32 = offset := by
    apply Int32.toInt_inj.mp
    rw [Int8.toInt8_toUInt8, Int8.toInt_toInt32, Int32.toInt_toInt8]
    exact Int.bmod_eq_of_le (by omega) (by omega)
  rw [List.singleton_append, displacement8, same]

theorem displacement32_offset (offset : Int32) (rest : Bytes) :
    displacement32 (u32 offset.toUInt32 ++ rest) = some (offset, rest) := by
  rw [displacement32, if_pos (by simp), List.take_left' (length_u32 _),
    List.drop_left' (length_u32 _), u32Of_u32]
  rfl

theorem decodeMemory_memOperand (reg base : X86Reg) (offset : Int32) (rest : Bytes) :
    decodeMemory (isExtended reg) false (isExtended base) (memOperand reg base offset ++ rest) =
      some (reg, ⟨.reg base, none, offset⟩, rest) := by
  rw [memOperand]
  split
  · next zero =>
    rw [zero.1, List.cons_append]
    exact decodeMemory_based reg base 0 (fun _ => zero.2) rfl
  · split
    · next short =>
      rw [List.cons_append, List.append_assoc]
      exact decodeMemory_based reg base 1 (fun none => by cases none)
        (displacement8_offset short.1 short.2 rest)
    · rw [List.cons_append, List.append_assoc]
      exact decodeMemory_based reg base 2 (fun none => by cases none)
        (displacement32_offset offset rest)

/-- Moves to and from memory decode to the registers and the displacement they were made of, and to
exactly the bytes emitted. -/
theorem decodeMove_memory (reg base : X86Reg) (offset : Int32) (rest : Bytes) :
    decodeMove (movR64Mem reg base offset ++ rest) =
      some (.load reg ⟨.reg base, none, offset⟩, rest) ∧
      decodeMove (movMemR64 base reg offset ++ rest) =
        some (.store ⟨.reg base, none, offset⟩ reg, rest) := by
  obtain ⟨prefixed, r, x, b⟩ := bits_rex64 reg base
  have operand := decodeMemory_memOperand reg base offset rest
  constructor
  · rw [movR64Mem, List.cons_append, List.cons_append, decodeMove,
      if_pos prefixed, r, x, b, operand]
    rfl
  · rw [movMemR64, List.cons_append, List.cons_append, decodeMove,
      if_pos prefixed, r, x, b, operand]
    rfl

end X86

end VectorTick.Jit
