import VectorTick.Jit.CodeGenerator
import VectorTick.Jit.A64Machine

/-! The AArch64 code generator. -/

set_option autoImplicit false

namespace VectorTick.Jit.A64CodeGenerator

open Foundation Ir A64Assembler
open ReferenceInterpreter (operand)

def freeRegs : List A64Reg :=
  [.x1, .x2, .x3, .x4, .x5, .x6, .x7, .x8, .x9, .x10, .x11, .x12, .x13, .x14, .x15]

def initial : Allocation A64Reg := ⟨fun _ => none, freeRegs⟩

def allocateReg (g : Allocation A64Reg) : A64Reg × Allocation A64Reg := g.allocateReg .x0

def getReg (g : Allocation A64Reg) (id : ValueId) : A64Reg := g.getReg .x0 id

/-- The move from the stack pointer moves zero: as a source of a move,
number 31 is the zero register. -/
def emitPrologue : List UInt32 :=
  [stpPre .x29 .x30 .sp (-16), movX64X64 .x29 .sp, stpPre .x19 .x20 .sp (-16),
    stpPre .x21 .x22 .sp (-16),
    stpPre .x23 .x24 .sp (-16), stpPre .x25 .x26 .sp (-16),
      stpPre .x27 .x28 .sp (-16), movX64X64 .x19 .x0]

def emitEpilogue : List UInt32 :=
  [ldpPost .x27 .x28 .sp 16, ldpPost .x25 .x26 .sp 16, ldpPost .x23 .x24 .sp 16,
    ldpPost .x21 .x22 .sp 16,
    ldpPost .x19 .x20 .sp 16, ldpPost .x29 .x30 .sp 16, ret .x30]

def emitResult (g : Allocation A64Reg) (instr : Instruction) (fill : A64Reg → List UInt32) :
    Except Stop (List UInt32 × Allocation A64Reg) :=
  let (dst, g) := allocateReg g
  .ok (fill dst, g.setReg instr.result dst)

def emitConstant (g : Allocation A64Reg) (instr : Instruction)
    (move : A64Reg → Constant → List UInt32) :
    Except Stop (List UInt32 × Allocation A64Reg) :=
  match instr.payload with
  | .constant constant => emitResult g instr fun dst => move dst constant
  | _ => .error .fault

def emitBinary (g : Allocation A64Reg) (instr : Instruction)
    (op : A64Reg → A64Reg → A64Reg → UInt32) :
    Except Stop (List UInt32 × Allocation A64Reg) :=
  let lhs := getReg g (operand instr 0)
  let rhs := getReg g (operand instr 1)
  emitResult g instr fun dst => [op dst lhs rhs]

def emitCompare (g : Allocation A64Reg) (instr : Instruction) (cond : A64Condition) :
    Except Stop (List UInt32 × Allocation A64Reg) :=
  let lhs := getReg g (operand instr 0)
  let rhs := getReg g (operand instr 1)
  emitResult g instr fun dst => [cmpX64X64 lhs rhs, csetX64 dst cond]

/-- The context pointer is in X19; every column has its width and its offset. -/
def loadColumn (dst : A64Reg) (cid : UInt32) : List UInt32 :=
  match cid.toNat with
  | 0 => [ldrX64 dst .x19 0]
  | 1 => [ldrX64 dst .x19 8]
  | 2 => [ldrX64 dst .x19 16]
  | 3 => [ldrW32 dst .x19 24]
  | 4 => [ldrb dst .x19 28]
  | 5 => [ldrb dst .x19 29]
  | 6 => [ldrh dst .x19 30]
  | 7 => [ldrX64 dst .x19 32]
  | 8 => [ldrW32 dst .x19 40]
  | 9 => [ldrh dst .x19 44]
  | 10 => [ldrh dst .x19 46]
  | 11 => [ldrX64 dst .x19 48]
  | _ => movX64Imm64 dst 0

/-- The upper half is left out where it is zero. -/
def moveU32 (dst : A64Reg) (constant : Constant) : List UInt32 :=
  [movzX64 dst (constant.getU32 &&& 0xFFFF).toUInt16 0] ++
    (if constant.getU32 > 0xFFFF then [movkX64 dst (constant.getU32 >>> 16).toUInt16 16] else [])

def emitReturn (g : Allocation A64Reg) (instr : Instruction) : List UInt32 :=
  match instr.operands with
  | [] => movX64Imm64 .x0 0 ++ emitEpilogue
  | id :: _ => (if getReg g id ≠ .x0 then [movX64X64 .x0 (getReg g id)] else []) ++ emitEpilogue

def emitInstruction (g : Allocation A64Reg) (instr : Instruction) :
    Except Stop (List UInt32 × Allocation A64Reg) :=
  match instr.opcode with
  | .nop => .ok ([nop], g)
  | .constU64 | .constI64 =>
    emitConstant g instr fun dst constant => movX64Imm64 dst constant.getU64
  | .constU32 => emitConstant g instr moveU32
  | .loadColumn =>
    match instr.payload with
    | .column cid => emitResult g instr fun dst => loadColumn dst cid
    | _ => .error .fault
  | .addU64 | .addI64 => emitBinary g instr addX64X64X64
  | .subU64 | .subI64 => emitBinary g instr subX64X64X64
  | .mulU64 | .mulI64 => emitBinary g instr mulX64X64X64
  | .divU64 => emitBinary g instr udivX64X64X64
  | .divI64 => emitBinary g instr sdivX64X64X64
  | .and | .bitAnd => emitBinary g instr andX64X64X64
  | .or | .bitOr => emitBinary g instr orrX64X64X64
  | .bitXor => emitBinary g instr eorX64X64X64
  | .eqU64 | .eqI64 => emitCompare g instr .eq
  | .neU64 | .neI64 => emitCompare g instr .ne
  | .ltU64 => emitCompare g instr .lo
  | .ltI64 => emitCompare g instr .lt
  | .leU64 => emitCompare g instr .ls
  | .leI64 => emitCompare g instr .le
  | .gtU64 => emitCompare g instr .hi
  | .gtI64 => emitCompare g instr .gt
  | .geU64 => emitCompare g instr .hs
  | .geI64 => emitCompare g instr .ge
  | .select =>
    let cond := getReg g (operand instr 0)
    let trueVal := getReg g (operand instr 1)
    let falseVal := getReg g (operand instr 2)
    emitResult g instr fun dst => [cmpX64X64 cond .xzr, cselX64 dst trueVal falseVal .ne]
  | .return_ => .ok (emitReturn g instr, g)
  | _ => failWith .notImplemented "Instruction not implemented in AArch64 JIT"

/-- The words of all blocks one after the other, between a prologue and an epilogue. -/
def generateWords (function : Function) : Except Stop (List UInt32) := do
  let (code, _) ← emitInstructions emitInstruction initial
    (function.blocks.flatMap (·.instructions))
  return emitPrologue ++ code ++ emitEpilogue

def generate (function : Function) : Except Stop Bytes := do
  let words ← generateWords function
  return Element.word32.putMany words

end VectorTick.Jit.A64CodeGenerator
