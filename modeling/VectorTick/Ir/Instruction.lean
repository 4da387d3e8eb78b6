import VectorTick.Common.Status

/-! The SSA form a query is lowered to: opcodes, instructions, basic blocks and functions.

A block is referred to by its number in the function, a value by its id. Names of values and blocks
and the links between blocks are not kept: nothing that runs a function reads them.
-/

set_option autoImplicit false

namespace VectorTick.Ir

inductive Opcode where
  | nop
  | jump
  | branch
  | return_
  | constI64
  | constU64
  | constU32
  | constBool
  | loadColumn
  | loadSelection
  | addI64
  | subI64
  | mulI64
  | divI64
  | modI64
  | addU64
  | subU64
  | mulU64
  | divU64
  | modU64
  | negI64
  | eqI64
  | neI64
  | ltI64
  | leI64
  | gtI64
  | geI64
  | eqU64
  | neU64
  | ltU64
  | leU64
  | gtU64
  | geU64
  | and
  | or
  | not
  | bitAnd
  | bitOr
  | bitXor
  | bitNot
  | shl
  | shr
  | select
  | extendI32ToI64
  | extendU32ToU64
  | truncI64ToI32
  | count
  | sumI64
  | sumU64
  | minI64
  | maxI64
  | minU64
  | maxU64
  | vectorLoad
  | vectorFilter
  | vectorProject
  | batchCount
  | batchSum
  | batchMin
  | batchMax
  deriving DecidableEq, Repr

def Opcode.isAggregate : Opcode → Bool
  | count | sumI64 | sumU64 | minI64 | maxI64 | minU64 | maxU64 => true
  | _ => false

inductive IrType where
  | void
  | i1
  | i8
  | i16
  | i32
  | i64
  | u8
  | u16
  | u32
  | u64
  | vector
  deriving DecidableEq, Repr

/-- Ids count from one; zero is no value. The source keeps them in 32 bits: a function is taken to
have fewer than 2^32 values. -/
abbrev ValueId := Nat

inductive Constant where
  | i64 (value : Int64)
  | u64 (value : UInt64)
  | u32 (value : UInt32)
  | boolean (value : Bool)
  deriving DecidableEq, Repr

namespace Constant

def type : Constant → IrType
  | i64 _ => .i64
  | u64 _ => .u64
  | u32 _ => .u32
  | boolean _ => .i1

def getU64 : Constant → UInt64
  | i64 value => value.toUInt64
  | u64 value => value
  | u32 value => value.toUInt64
  | boolean value => if value then 1 else 0

def getU32 (constant : Constant) : UInt32 := constant.getU64.toUInt32

end Constant

/-- What the subclasses of an instruction add to it. -/
inductive Payload where
  | none
  | column (id : UInt32)
  | constant (constant : Constant)
  | jump (target : Option Nat)
  | branch (trueBlock falseBlock : Option Nat)
  deriving DecidableEq, Repr

structure Instruction where
  opcode : Opcode
  operands : List ValueId
  result : ValueId
  resultType : IrType
  payload : Payload
  deriving DecidableEq, Repr

namespace Instruction

def binaryOp (op : Opcode) (left right result : ValueId) (type : IrType) : Instruction :=
  ⟨op, [left, right], result, type, .none⟩

def unaryOp (op : Opcode) (operand result : ValueId) (type : IrType) : Instruction :=
  ⟨op, [operand], result, type, .none⟩

def compareOp (op : Opcode) (left right result : ValueId) : Instruction :=
  ⟨op, [left, right], result, .i1, .none⟩

def loadColumnOp (columnId : UInt32) (rowIdx result : ValueId) (type : IrType) : Instruction :=
  ⟨.loadColumn, [rowIdx], result, type, .column columnId⟩

def constOp (constant : Constant) (result : ValueId) : Instruction :=
  let opcode := match constant.type with
    | .i64 => .constI64
    | .u32 => .constU32
    | .i1 => .constBool
    | _ => .constU64
  ⟨opcode, [], result, constant.type, .constant constant⟩

/-- No operand stands for "no value". -/
def returnOp (value : ValueId) : Instruction :=
  ⟨.return_, if value ≠ 0 then [value] else [], 0, .void, .none⟩

def aggregateOp (op : Opcode) (input result : ValueId) (type : IrType) : Instruction :=
  ⟨op, [input], result, type, .none⟩

end Instruction

structure BasicBlock where
  instructions : List Instruction
  deriving DecidableEq, Repr

/-- The first block is the entry. -/
structure Function where
  blocks : List BasicBlock
  parameters : List ValueId
  nextValueId : ValueId
  deriving DecidableEq, Repr

namespace Function

def empty : Function := ⟨[], [], 1⟩

def entryBlock (function : Function) : Option BasicBlock := function.blocks.head?

end Function

end VectorTick.Ir
