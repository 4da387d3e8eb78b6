import Mathlib.Tactic
import VectorTick.Foundation.AddressSpace

/-! The x86-64 assembler, and what a processor makes of its bytes.

The assembler is followed as far as the code generator uses it. The decoder follows
the instruction set manual for the same instructions: a REX prefix, an opcode, and a
ModRM byte with two registers. -/

set_option autoImplicit false

namespace VectorTick.Jit

open Foundation

inductive X86Reg where
  | rax | rcx | rdx | rbx | rsp | rbp | rsi | rdi | r8 | r9 | r10 | r11 | r12 | r13 | r14 | r15
  deriving DecidableEq, Repr

namespace X86Reg

instance : Fintype X86Reg where
  elems := {rax, rcx, rdx, rbx, rsp, rbp, rsi, rdi, r8, r9, r10, r11, r12, r13, r14, r15}
  complete := by intro r; cases r <;> decide

def value : X86Reg → UInt8
  | rax => 0 | rcx => 1 | rdx => 2 | rbx => 3 | rsp => 4 | rbp => 5 | rsi => 6 | rdi => 7
  | r8 => 8 | r9 => 9 | r10 => 10 | r11 => 11 | r12 => 12 | r13 => 13 | r14 => 14 | r15 => 15

/-- The register of three bits of an instruction and the bit of the prefix that extends them. -/
def ofBits (extended : Bool) (index : UInt8) : X86Reg :=
  match extended, index.toNat % 8 with
  | false, 0 => rax | false, 1 => rcx | false, 2 => rdx | false, 3 => rbx
  | false, 4 => rsp | false, 5 => rbp | false, 6 => rsi | false, _ => rdi
  | true, 0 => r8 | true, 1 => r9 | true, 2 => r10 | true, 3 => r11
  | true, 4 => r12 | true, 5 => r13 | true, 6 => r14 | true, _ => r15

end X86Reg

/-- The conditions of unsigned comparisons. -/
inductive Condition where
  | b | ae | e | ne | be | a
  deriving DecidableEq, Repr

def Condition.value : Condition → UInt8
  | b => 0x2 | ae => 0x3 | e => 0x4 | ne => 0x5 | be => 0x6 | a => 0x7

def Condition.ofBits (bits : UInt8) : Option Condition :=
  match bits.toNat % 16 with
  | 0x2 => some b | 0x3 => some ae | 0x4 => some e | 0x5 => some ne | 0x6 => some be | 0x7 => some a
  | _ => none

-- Each function gives the bytes that it appends to the code.

namespace X86Assembler

def regIndex (r : X86Reg) : UInt8 := r.value &&& 7

def isExtended (r : X86Reg) : Bool := r.value ≥ 8

def modrm (mod reg rm : UInt8) : UInt8 := ((mod &&& 3) <<< 6) ||| ((reg &&& 7) <<< 3) ||| (rm &&& 7)

def rex64 (reg rm : X86Reg) : UInt8 :=
  0x48 ||| (if isExtended reg then 0x04 else 0) ||| (if isExtended rm then 0x01 else 0)

def rex64B (b : X86Reg) : UInt8 := 0x48 ||| (if isExtended b then 0x01 else 0)

def movR64Imm64 (reg : X86Reg) (imm : UInt64) : Bytes :=
  rex64B reg :: (0xB8 ||| regIndex reg) :: u64 imm

/-- Thirty-two bits; the prefix is there for the upper registers only. -/
def movR32Imm32 (reg : X86Reg) (imm : UInt32) : Bytes :=
  (if isExtended reg then [0x41] else []) ++ (0xB8 ||| regIndex reg) :: u32 imm

/-- An instruction with a register and a register or memory operand, here always a register. -/
def regRm (opcode : UInt8) (reg rm : X86Reg) : Bytes :=
  [rex64 reg rm, opcode, modrm 3 (regIndex reg) (regIndex rm)]

def movR64R64 (dst src : X86Reg) : Bytes := regRm 0x89 src dst

def addR64Imm32 (dst : X86Reg) (imm : UInt32) : Bytes :=
  [rex64B dst, 0x81, modrm 3 0 (regIndex dst)] ++ u32 imm

def addR64R64 (dst src : X86Reg) : Bytes := regRm 0x01 src dst
def subR64R64 (dst src : X86Reg) : Bytes := regRm 0x29 src dst
def xorR64R64 (dst src : X86Reg) : Bytes := regRm 0x31 src dst
def andR64R64 (dst src : X86Reg) : Bytes := regRm 0x21 src dst
def orR64R64 (dst src : X86Reg) : Bytes := regRm 0x09 src dst
def cmpR64R64 (a b : X86Reg) : Bytes := regRm 0x39 b a

/-- The operands stand the other way round. -/
def imulR64R64 (dst src : X86Reg) : Bytes :=
  [rex64 dst src, 0x0F, 0xAF, modrm 3 (regIndex dst) (regIndex src)]

def ret : Bytes := [0xC3]

def nop : Bytes := [0x90]

def pushR64 (reg : X86Reg) : Bytes :=
  (if isExtended reg then [0x41] else []) ++ [0x50 ||| regIndex reg]

def popR64 (reg : X86Reg) : Bytes :=
  (if isExtended reg then [0x41] else []) ++ [0x58 ||| regIndex reg]

def setcc (cond : Condition) (dst : X86Reg) : Bytes :=
  (if isExtended dst ∨ dst.value ≥ 4 then
    [0x40 ||| (if isExtended dst then 0x01 else 0)] else []) ++
    [0x0F, 0x90 ||| cond.value, modrm 3 0 (regIndex dst)]

end X86Assembler

inductive AluOp where
  | add | or | and | sub | xor
  deriving DecidableEq, Repr

inductive X86Instruction where
  | nop
  | movImm64 (dst : X86Reg) (imm : UInt64)
  | movImm32 (dst : X86Reg) (imm : UInt32)
  | mov (dst src : X86Reg)
  | alu (op : AluOp) (dst src : X86Reg)
  | imul (dst src : X86Reg)
  | cmp (first second : X86Reg)
  | addImm32 (dst : X86Reg) (imm : UInt32)
  | setcc (cond : Condition) (dst : X86Reg)
  | push (reg : X86Reg)
  | pop (reg : X86Reg)
  | ret
  deriving DecidableEq, Repr

/-- The bits of a REX prefix; without one they are all clear. -/
structure Rex where
  present : Bool
  w : Bool
  r : Bool
  b : Bool
  deriving DecidableEq, Repr

def Rex.none : Rex := ⟨false, false, false, false⟩

def Rex.ofByte (byte : UInt8) : Rex := ⟨true, byte &&& 8 ≠ 0, byte &&& 4 ≠ 0, byte &&& 1 ≠ 0⟩

namespace X86

/-- The two registers of a ModRM byte that names no memory. -/
def decodeModrm (rex : Rex) : Bytes → Option (X86Reg × X86Reg × Bytes)
  | [] => none
  | byte :: rest =>
    if byte >>> 6 = 3 then some (.ofBits rex.r (byte >>> 3), .ofBits rex.b byte, rest) else none

/-- An instruction with two registers and a 64-bit operand size. -/
def decodeRegRm (rex : Rex) (make : X86Reg → X86Reg → X86Instruction) (rest : Bytes) :
    Option (X86Instruction × Bytes) :=
  if rex.w then (decodeModrm rex rest).map fun (reg, rm, rest) => (make reg rm, rest) else none

/-- An immediate operand of four bytes. -/
def decodeImm32 (make : UInt32 → X86Instruction) (rest : Bytes) : Option (X86Instruction × Bytes) :=
  if 4 ≤ rest.length then some (make (u32Of (rest.take 4)), rest.drop 4) else none

/-- The opcodes that begin with `0F`. -/
def decodeTwoByte (rex : Rex) : Bytes → Option (X86Instruction × Bytes)
  | [] => none
  | opcode :: rest =>
    if opcode = 0xAF then decodeRegRm rex .imul rest
    else if opcode &&& 0xF0 = 0x90 then do
      let cond ← Condition.ofBits opcode
      let (_, rm, rest) ← decodeModrm rex rest
      -- Without a prefix the registers from the fifth on are the high bytes of the first four.
      if rex.present ∨ rm.value < 4 then some (.setcc cond rm, rest) else none
    else none

def decodeOpcode (rex : Rex) : Bytes → Option (X86Instruction × Bytes)
  | [] => none
  | opcode :: rest =>
    if opcode = 0x01 then decodeRegRm rex (fun reg rm => .alu .add rm reg) rest
    else if opcode = 0x09 then decodeRegRm rex (fun reg rm => .alu .or rm reg) rest
    else if opcode = 0x21 then decodeRegRm rex (fun reg rm => .alu .and rm reg) rest
    else if opcode = 0x29 then decodeRegRm rex (fun reg rm => .alu .sub rm reg) rest
    else if opcode = 0x31 then decodeRegRm rex (fun reg rm => .alu .xor rm reg) rest
    else if opcode = 0x39 then decodeRegRm rex (fun reg rm => .cmp rm reg) rest
    else if opcode = 0x89 then decodeRegRm rex (fun reg rm => .mov rm reg) rest
    else if opcode = 0x0F then decodeTwoByte rex rest
    else if opcode = 0x81 then
      -- The register field selects the operation: zero is an addition.
      if rex.w then (decodeModrm { rex with r := false } rest).bind fun (operation, rm, rest) =>
        if operation = .rax then decodeImm32 (.addImm32 rm) rest else none
      else none
    else if opcode = 0x90 ∧ rex.b = false then some (.nop, rest)
    else if opcode = 0xC3 then some (.ret, rest)
    else if opcode &&& 0xF8 = 0x50 then some (.push (.ofBits rex.b opcode), rest)
    else if opcode &&& 0xF8 = 0x58 then some (.pop (.ofBits rex.b opcode), rest)
    else if opcode &&& 0xF8 = 0xB8 then
      if rex.w then
        if 8 ≤ rest.length then
          some (.movImm64 (.ofBits rex.b opcode) (u64Of (rest.take 8)), rest.drop 8) else none
      else decodeImm32 (.movImm32 (.ofBits rex.b opcode)) rest
    else none

/-- The first instruction and what follows it. -/
def decode : Bytes → Option (X86Instruction × Bytes)
  | [] => none
  | byte :: rest =>
    if byte &&& 0xF0 = 0x40 then decodeOpcode (Rex.ofByte byte) rest
      else decodeOpcode Rex.none (byte :: rest)

open X86Assembler

theorem isRex_rex64 : ∀ reg rm, rex64 reg rm &&& 0xF0 = 0x40 := by decide

theorem isRex_rex64B : ∀ reg, rex64B reg &&& 0xF0 = 0x40 := by decide

theorem ofByte_rex64 : ∀ reg rm, Rex.ofByte (rex64 reg rm) =
    ⟨true, true, isExtended reg, isExtended rm⟩ := by decide

theorem ofByte_rex64B : ∀ reg, Rex.ofByte (rex64B reg) =
    ⟨true, true, false, isExtended reg⟩ := by decide

theorem modrm_registers : ∀ reg rm, modrm 3 (regIndex reg) (regIndex rm) >>> 6 = 3 ∧
    X86Reg.ofBits (isExtended reg) (modrm 3 (regIndex reg) (regIndex rm) >>> 3) = reg ∧
    X86Reg.ofBits (isExtended rm) (modrm 3 (regIndex reg) (regIndex rm)) = rm := by decide

theorem modrm_zero : ∀ rm, modrm 3 0 (regIndex rm) >>> 6 = 3 ∧
    X86Reg.ofBits false (modrm 3 0 (regIndex rm) >>> 3) = .rax ∧
    X86Reg.ofBits (isExtended rm) (modrm 3 0 (regIndex rm)) = rm := by decide

variable (rest : Bytes) (reg rm : X86Reg)

theorem decodeModrm_registers (present : Bool) (w : Bool) :
    decodeModrm ⟨present, w, isExtended reg, isExtended rm⟩ (modrm 3 (regIndex reg)
      (regIndex rm) :: rest) =
      some (reg, rm, rest) := by
  obtain ⟨isRegister, first, second⟩ := modrm_registers reg rm
  rw [decodeModrm, if_pos isRegister, first, second]

/-- An instruction with two registers is found by its opcode. -/
theorem decode_regRm (opcode : UInt8) (make : X86Reg → X86Reg → X86Instruction)
    (known : ∀ rex rest, decodeOpcode rex (opcode :: rest) = decodeRegRm rex make rest) :
    decode (regRm opcode reg rm ++ rest) = some (make reg rm, rest) := by
  change decode (rex64 reg rm :: opcode :: modrm 3 (regIndex reg) (regIndex rm) :: rest) = _
  rw [decode, if_pos (isRex_rex64 reg rm), known, ofByte_rex64]
  unfold decodeRegRm
  rw [if_pos rfl, decodeModrm_registers]
  rfl

theorem decode_movR64R64 : decode (movR64R64 rm reg ++ rest) = some (.mov rm reg, rest) :=
  decode_regRm rest reg rm 0x89 (fun reg rm => .mov rm reg) fun _ _ => rfl

theorem decode_addR64R64 : decode (addR64R64 rm reg ++ rest) = some (.alu .add rm reg, rest) :=
  decode_regRm rest reg rm 0x01 (fun reg rm => .alu .add rm reg) fun _ _ => rfl

theorem decode_subR64R64 : decode (subR64R64 rm reg ++ rest) = some (.alu .sub rm reg, rest) :=
  decode_regRm rest reg rm 0x29 (fun reg rm => .alu .sub rm reg) fun _ _ => rfl

theorem decode_xorR64R64 : decode (xorR64R64 rm reg ++ rest) = some (.alu .xor rm reg, rest) :=
  decode_regRm rest reg rm 0x31 (fun reg rm => .alu .xor rm reg) fun _ _ => rfl

theorem decode_andR64R64 : decode (andR64R64 rm reg ++ rest) = some (.alu .and rm reg, rest) :=
  decode_regRm rest reg rm 0x21 (fun reg rm => .alu .and rm reg) fun _ _ => rfl

theorem decode_orR64R64 : decode (orR64R64 rm reg ++ rest) = some (.alu .or rm reg, rest) :=
  decode_regRm rest reg rm 0x09 (fun reg rm => .alu .or rm reg) fun _ _ => rfl

theorem decode_cmpR64R64 : decode (cmpR64R64 rm reg ++ rest) = some (.cmp rm reg, rest) :=
  decode_regRm rest reg rm 0x39 (fun reg rm => .cmp rm reg) fun _ _ => rfl

theorem decode_imulR64R64 : decode (imulR64R64 reg rm ++ rest) = some (.imul reg rm, rest) := by
  change decode (rex64 reg rm :: 0x0F :: 0xAF :: modrm 3 (regIndex reg) (regIndex rm) :: rest) = _
  have known : ∀ rex more, decodeOpcode rex (0x0F :: 0xAF :: more) = decodeRegRm rex .imul more :=
    fun _ _ => rfl
  rw [decode, if_pos (isRex_rex64 reg rm), known, ofByte_rex64]
  unfold decodeRegRm
  rw [if_pos rfl, decodeModrm_registers]
  rfl

theorem decodeImm32_u32 (make : UInt32 → X86Instruction) (imm : UInt32) :
    decodeImm32 make (u32 imm ++ rest) = some (make imm, rest) := by
  unfold decodeImm32
  rw [if_pos (by simp), List.take_left' (length_u32 imm),
    List.drop_left' (length_u32 imm), u32Of_u32]

theorem decode_addR64Imm32 (imm : UInt32) :
    decode (addR64Imm32 rm imm ++ rest) = some (.addImm32 rm imm, rest) := by
  obtain ⟨isRegister, first, second⟩ := modrm_zero rm
  change decode (rex64B rm :: 0x81 :: modrm 3 0 (regIndex rm) :: (u32 imm ++ rest)) = _
  rw [decode, if_pos (isRex_rex64B rm), ofByte_rex64B]
  change (decodeModrm ⟨true, true, false, isExtended rm⟩ _).bind _ = _
  rw [decodeModrm, if_pos isRegister, first, second]
  exact decodeImm32_u32 rest (.addImm32 rm) imm

theorem decode_nop : decode (nop ++ rest) = some (.nop, rest) := rfl

theorem decode_pushR64 : decode (pushR64 reg ++ rest) = some (.push reg, rest) := by
  cases reg <;> rfl

theorem decode_popR64 : decode (popR64 reg ++ rest) = some (.pop reg, rest) := by
  cases reg <;> rfl

theorem decode_setcc (cond : Condition) :
    decode (setcc cond reg ++ rest) = some (.setcc cond reg, rest) := by
  cases reg <;> cases cond <;> rfl

theorem decode_movR64Imm64 (imm : UInt64) :
    decode (movR64Imm64 reg imm ++ rest) = some (.movImm64 reg imm, rest) := by
  have split : movR64Imm64 reg imm ++ rest =
      rex64B reg :: (0xB8 ||| regIndex reg) :: (u64 imm ++ rest) := rfl
  have long : 8 ≤ (u64 imm ++ rest).length := by simp
  have found : decode (rex64B reg :: (0xB8 ||| regIndex reg) :: (u64 imm ++ rest)) =
      some (.movImm64 reg (u64Of ((u64 imm ++ rest).take 8)), (u64 imm ++ rest).drop 8) := by
    cases reg <;> exact @if_pos _ _ long _ _ none
  rw [split, found, List.take_left' (length_u64 imm), List.drop_left' (length_u64 imm), u64Of_u64]

theorem decode_movR32Imm32 (imm : UInt32) :
    decode (movR32Imm32 reg imm ++ rest) = some (.movImm32 reg imm, rest) := by
  have found : decode (movR32Imm32 reg imm ++ rest) =
      decodeImm32 (.movImm32 reg) (u32 imm ++ rest) := by
    cases reg <;> rfl
  rw [found, decodeImm32_u32]

end X86

end VectorTick.Jit
