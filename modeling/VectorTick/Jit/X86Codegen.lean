import VectorTick.Jit.CodeGenerator
import VectorTick.Jit.X86Machine

/-! The x86-64 code generator. -/

set_option autoImplicit false

namespace VectorTick.Jit.X86CodeGenerator

open Foundation Ir X86Assembler
open ReferenceInterpreter (operand)

def freeRegs : List X86Reg := [.rax, .rcx, .rdx, .rsi, .rdi, .r8, .r9, .r10, .r11]

def initial : Allocation X86Reg := ⟨fun _ => none, freeRegs⟩

def allocateReg (g : Allocation X86Reg) : X86Reg × Allocation X86Reg := g.allocateReg .rax

def getReg (g : Allocation X86Reg) (id : ValueId) : X86Reg := g.getReg .rax id

def emitPrologue : Bytes :=
  pushR64 .rbp ++ movR64R64 .rbp .rsp ++ pushR64 .rbx ++ pushR64 .r12 ++ pushR64 .r13 ++
    pushR64 .r14 ++ pushR64 .r15 ++
    addR64Imm32 .rsp (-64)

def emitEpilogue : Bytes :=
  addR64Imm32 .rsp 64 ++ popR64 .r15 ++ popR64 .r14 ++ popR64 .r13 ++ popR64 .r12 ++
    popR64 .rbx ++ popR64 .rbp ++ ret

def emitConstant (g : Allocation X86Reg) (instr : Instruction) (move : X86Reg → Constant → Bytes) :
    Except Stop (Bytes × Allocation X86Reg) :=
  match instr.payload with
  | .constant constant =>
    let (dst, g) := allocateReg g
    .ok (move dst constant, g.setReg instr.result dst)
  | _ => .error .fault

/-- The left operand is moved to a new register, and the operation is done there. -/
def emitBinary (g : Allocation X86Reg) (instr : Instruction) (op : X86Reg → X86Reg → Bytes) :
    Except Stop (Bytes × Allocation X86Reg) :=
  let lhs := getReg g (operand instr 0)
  let rhs := getReg g (operand instr 1)
  let (dst, g) := allocateReg g
  .ok (movR64R64 dst lhs ++ op dst rhs, g.setReg instr.result dst)

/-- RAX is cleared before the operands are compared, and set from the flags. -/
def emitCompare (g : Allocation X86Reg) (instr : Instruction) (cond : Condition) :
    Except Stop (Bytes × Allocation X86Reg) :=
  let lhs := getReg g (operand instr 0)
  let rhs := getReg g (operand instr 1)
  .ok (xorR64R64 .rax .rax ++ cmpR64R64 lhs rhs ++ setcc cond .rax, g.setReg instr.result .rax)

def emitReturn (g : Allocation X86Reg) (instr : Instruction) : Bytes :=
  match instr.operands with
  | [] => xorR64R64 .rax .rax ++ emitEpilogue
  | id :: _ => (if getReg g id ≠ .rax then movR64R64 .rax (getReg g id) else []) ++ emitEpilogue

def emitInstruction (g : Allocation X86Reg) (instr : Instruction) :
    Except Stop (Bytes × Allocation X86Reg) :=
  match instr.opcode with
  | .nop => .ok (nop, g)
  | .constU64 | .constI64 =>
    emitConstant g instr fun dst constant => movR64Imm64 dst constant.getU64
  | .constU32 => emitConstant g instr fun dst constant => movR32Imm32 dst constant.getU32
  | .addU64 | .addI64 => emitBinary g instr addR64R64
  | .subU64 | .subI64 => emitBinary g instr subR64R64
  | .mulU64 | .mulI64 => emitBinary g instr imulR64R64
  | .and => emitBinary g instr andR64R64
  | .or => emitBinary g instr orR64R64
  | .bitXor => emitBinary g instr xorR64R64
  | .eqU64 => emitCompare g instr .e
  | .neU64 => emitCompare g instr .ne
  | .ltU64 => emitCompare g instr .b
  | .leU64 => emitCompare g instr .be
  | .gtU64 => emitCompare g instr .a
  | .geU64 => emitCompare g instr .ae
  | .return_ => .ok (emitReturn g instr, g)
  | _ => failWith .notImplemented "Instruction not implemented in x86 JIT"

/-- All blocks one after the other, between a prologue and an epilogue. -/
def generate (function : Function) : Except Stop Bytes := do
  let (code, _) ← emitInstructions emitInstruction initial
    (function.blocks.flatMap (·.instructions))
  return emitPrologue ++ code ++ emitEpilogue

end VectorTick.Jit.X86CodeGenerator
