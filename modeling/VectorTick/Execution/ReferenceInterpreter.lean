import VectorTick.Ir.Instruction
import VectorTick.Common.Types

/-! The reference interpreter: one instruction, one row, and an aggregate over rows.

Values are 64-bit words. Signed arithmetic works on the same words read as two's complement.
-/

set_option autoImplicit false

namespace VectorTick.ReferenceInterpreter

open Ir

abbrev Values := ValueId → Option UInt64

def setValue (values : Values) (id : ValueId) (value : UInt64) : Values :=
  fun asked => if asked = id then some value else values asked

/-- The parameters hold zero, everything else is undefined. -/
def initialValues (function : Function) : Values :=
  fun id => if id ∈ function.parameters then some 0 else none

def loadColumnValue (columnId : UInt32) (event : CanonicalEvent) : UInt64 :=
  match columnId.toNat with
  | 0 => event.exchangeTsNs
  | 1 => event.receiveTsNs
  | 2 => event.sequence
  | 3 => event.instrumentId.toUInt64
  | 4 => event.eventType.value.toUInt64
  | 5 => event.side.value.toUInt64
  | 6 => event.flags.toUInt64
  | 7 => event.priceTicks.toUInt64
  | 8 => event.quantity.toUInt64
  | 9 => event.venueId.toUInt64
  | 10 => event.sourceId.toUInt64
  | 11 => event.tradeOrOrderId
  | _ => 0

def checkedAddU64 (a b : UInt64) : Option UInt64 :=
  if a > 0xFFFFFFFFFFFFFFFF - b then none else some (a + b)

def checkedSubU64 (a b : UInt64) : Option UInt64 := if a < b then none else some (a - b)

def checkedMulU64 (a b : UInt64) : Option UInt64 :=
  if a > 0 ∧ b > 0xFFFFFFFFFFFFFFFF / a then none else some (a * b)

def checkedAddI64 (a b : Int64) : Option Int64 :=
  if b > 0 ∧ a > Int64.maxValue - b then none
  else if b < 0 ∧ a < Int64.minValue - b then none
  else some (a + b)

def checkedSubI64 (a b : Int64) : Option Int64 :=
  if b > 0 ∧ a < Int64.minValue + b then none
  else if b < 0 ∧ a > Int64.maxValue + b then none
  else some (a - b)

def checkedMulI64 (a b : Int64) : Option Int64 :=
  if a = 0 ∨ b = 0 then some 0
  else if a = 1 then some b
  else if b = 1 then some a
  else if a > 0 then
    if b > 0 then if a > Int64.maxValue / b then none else some (a * b)
    else if b < Int64.minValue / a then none else some (a * b)
  else if b > 0 then if a < Int64.minValue / b then none else some (a * b)
  else if a < Int64.maxValue / b then none else some (a * b)

def getVal (values : Values) (id : ValueId) : Except Stop UInt64 :=
  match values id with
  | none => failWith .internalError "Undefined SSA value"
  | some value => .ok value

def operand (instr : Instruction) (i : Nat) : ValueId := instr.operands.getD i 0

def binary (values : Values) (instr : Instruction)
    (compute : UInt64 → UInt64 → Except Stop UInt64) :
    Except Stop Values := do
  let lhs ← getVal values (operand instr 0)
  let rhs ← getVal values (operand instr 1)
  let value ← compute lhs rhs
  return setValue values instr.result value

def unary (values : Values) (instr : Instruction) (compute : UInt64 → Except Stop UInt64) :
    Except Stop Values := do
  let val ← getVal values (operand instr 0)
  let value ← compute val
  return setValue values instr.result value

def orFail (message : String) : Option UInt64 → Except Stop UInt64
  | none => failWith .internalError message
  | some value => .ok value

def truth (b : Bool) : Except Stop UInt64 := .ok (if b then 1 else 0)

def executeInstruction (values : Values) (instr : Instruction) (event : CanonicalEvent) :
    Except Stop Values :=
  match instr.opcode with
  | .nop | .return_ => .ok values
  | .constI64 | .constU64 | .constU32 | .constBool =>
    match instr.payload with
    | .constant constant => .ok (setValue values instr.result constant.getU64)
    | _ => .error .fault
  | .loadColumn =>
    match instr.payload with
    | .column id => .ok (setValue values instr.result (loadColumnValue id event))
    | _ => .error .fault
  | .addU64 => binary values instr fun a b => orFail "Addition overflow" (checkedAddU64 a b)
  | .subU64 => binary values instr fun a b => orFail "Subtraction underflow" (checkedSubU64 a b)
  | .mulU64 => binary values instr fun a b => orFail "Multiplication overflow" (checkedMulU64 a b)
  | .divU64 => binary values instr fun a b =>
    if b = 0 then failWith .internalError "Division by zero" else .ok (a / b)
  | .modU64 => binary values instr fun a b => if b = 0 then
      failWith .internalError "Modulo by zero" else .ok (a % b)
  | .addI64 => binary values instr fun a b =>
    orFail "Addition overflow" ((checkedAddI64 a.toInt64 b.toInt64).map Int64.toUInt64)
  | .subI64 => binary values instr fun a b =>
    orFail "Subtraction underflow" ((checkedSubI64 a.toInt64 b.toInt64).map Int64.toUInt64)
  | .mulI64 => binary values instr fun a b =>
    orFail "Multiplication overflow" ((checkedMulI64 a.toInt64 b.toInt64).map Int64.toUInt64)
  | .divI64 => binary values instr fun a b =>
    if b = 0 then failWith .internalError "Division by zero"
    -- The one quotient that does not fit has no defined outcome.
    else if a.toInt64 = Int64.minValue ∧ b.toInt64 = -1 then .error .fault
    else .ok (a.toInt64 / b.toInt64).toUInt64
  | .negI64 => unary values instr fun a =>
    if a.toInt64 = Int64.minValue then failWith .internalError "Negation overflow"
      else .ok (-a.toInt64).toUInt64
  | .eqU64 => binary values instr fun a b => truth (a = b)
  | .eqI64 => binary values instr fun a b => truth (a.toInt64 = b.toInt64)
  | .neU64 => binary values instr fun a b => truth (a ≠ b)
  | .neI64 => binary values instr fun a b => truth (a.toInt64 ≠ b.toInt64)
  | .ltU64 => binary values instr fun a b => truth (a < b)
  | .leU64 => binary values instr fun a b => truth (a ≤ b)
  | .gtU64 => binary values instr fun a b => truth (a > b)
  | .geU64 => binary values instr fun a b => truth (a ≥ b)
  | .ltI64 => binary values instr fun a b => truth (a.toInt64 < b.toInt64)
  | .leI64 => binary values instr fun a b => truth (a.toInt64 ≤ b.toInt64)
  | .gtI64 => binary values instr fun a b => truth (a.toInt64 > b.toInt64)
  | .geI64 => binary values instr fun a b => truth (a.toInt64 ≥ b.toInt64)
  | .and => binary values instr fun a b => truth (a ≠ 0 ∧ b ≠ 0)
  | .or => binary values instr fun a b => truth (a ≠ 0 ∨ b ≠ 0)
  | .not => unary values instr fun a => truth (a = 0)
  | .bitAnd => binary values instr fun a b => .ok (a &&& b)
  | .bitOr => binary values instr fun a b => .ok (a ||| b)
  | .bitXor => binary values instr fun a b => .ok (a ^^^ b)
  | .bitNot => unary values instr fun a => .ok (~~~a)
  | .shl => binary values instr fun a b => .ok (if b < 64 then a <<< b else 0)
  | .shr => binary values instr fun a b => .ok (if b < 64 then a >>> b else 0)
  | .extendI32ToI64 => unary values instr fun a => .ok a.toUInt32.toInt32.toInt64.toUInt64
  | .extendU32ToU64 => unary values instr fun a => .ok a.toUInt32.toUInt64
  | .truncI64ToI32 => unary values instr fun a => .ok a.toUInt32.toUInt64
  | .select => do
    let cond ← getVal values (operand instr 0)
    let trueVal ← getVal values (operand instr 1)
    let falseVal ← getVal values (operand instr 2)
    return setValue values instr.result (if cond ≠ 0 then trueVal else falseVal)
  | _ => failWith .notImplemented "Opcode not implemented"

/-- Where control goes at the end of a block. -/
inductive Exit where
  | returned (value : UInt64)
  | next (block : Option Nat)

/-- The instructions of a block, up to the first that leaves it. -/
def executeBlock (event : CanonicalEvent) : List Instruction → Values → Except Stop (Exit × Values)
  | [], values => .ok (.next none, values)
  | instr :: rest, values =>
    match instr.opcode, instr.payload with
    | .return_, _ =>
      match instr.operands with
      | [] => .ok (.returned 0, values)
      | id :: _ =>
        match values id with
        | none => failWith .internalError "Undefined SSA value in return"
        | some value => .ok (.returned value, values)
    | .jump, .jump target => .ok (.next target, values)
    | .branch, .branch trueBlock falseBlock =>
      match values (operand instr 0) with
      | none => failWith .internalError "Undefined SSA condition in branch"
      | some cond => .ok (.next (if cond ≠ 0 then trueBlock else falseBlock), values)
    | _, _ => do
      let values ← executeInstruction values instr event
      executeBlock event rest values

/-- The blocks from one on; `fuel` bounds how many are run. -/
def executeBlocks (function : Function) (event : CanonicalEvent) : Nat → Option Nat →
    Values → Except Stop UInt64
  | 0, _, _ => .error .terminate
  | fuel + 1, current, values =>
    match current.bind fun id => function.blocks[id]? with
    | none => failWith .internalError "Function did not return"
    | some block => do
      let (exit, values) ← executeBlock event block.instructions values
      match exit with
      | .returned value => return value
      | .next target => executeBlocks function event fuel target values

def execute (function : Function) (fuel : Nat) (event : CanonicalEvent) : Except Stop UInt64 :=
  executeBlocks function event fuel (some 0) (initialValues function)

def findAggregate (function : Function) : Option (Nat × Nat × Instruction) :=
  (function.blocks.zipIdx.findSome? fun (block, b) =>
    block.instructions.zipIdx.findSome? fun (instr, i) =>
      if instr.opcode.isAggregate then some (b, i, instr) else none)

/-- No aggregate instruction: count the rows for which the function
returns something else than zero. -/
def countRows (function : Function) (fuel : Nat) : List CanonicalEvent → UInt64 → Except Stop UInt64
  | [], count => .ok count
  | event :: rest, count => do
    let value ← execute function fuel event
    countRows function fuel rest (if value ≠ 0 then count + 1 else count)

/-- The entry block up to place `stop`; the input of the aggregate is read there, and is zero if the
block ends before. -/
def aggregateInput (event : CanonicalEvent) (aggregate : Instruction) (stop : Option Nat) :
    Nat → List Instruction → Values → Except Stop UInt64
  | _, [], _ => .ok 0
  | i, instr :: rest, values =>
    if stop = some i then
      match aggregate.operands with
      | [] => .ok 0
      | id :: _ => .ok ((values id).getD 0)
    else do
      let values ← executeInstruction values instr event
      aggregateInput event aggregate stop (i + 1) rest values

structure AggregateState where
  count : UInt64
  sumU64 : UInt64
  sumI64 : Int64
  minU64 : UInt64
  maxU64 : UInt64
  minI64 : Int64
  maxI64 : Int64
  deriving DecidableEq, Repr

def AggregateState.initial : AggregateState :=
  ⟨0, 0, 0, 0xFFFFFFFFFFFFFFFF, 0, Int64.maxValue, Int64.minValue⟩

-- A signed sum that overflows is undefined in the source; it is taken to wrap.
def accumulate (op : Opcode) (input : UInt64) (state : AggregateState) : AggregateState :=
  let state := { state with count := state.count + 1 }
  match op with
  | .sumU64 => { state with sumU64 := state.sumU64 + input }
  | .sumI64 => { state with sumI64 := state.sumI64 + input.toInt64 }
  | .minU64 => { state with minU64 := if input < state.minU64 then input else state.minU64 }
  | .maxU64 => { state with maxU64 := if state.maxU64 < input then input else state.maxU64 }
  | .minI64 =>
    { state with minI64 := if input.toInt64 < state.minI64 then input.toInt64 else state.minI64 }
  | .maxI64 =>
    { state with maxI64 := if state.maxI64 < input.toInt64 then input.toInt64 else state.maxI64 }
  | _ => state

def aggregateResult (op : Opcode) (state : AggregateState) : UInt64 :=
  match op with
  | .count => state.count
  | .sumU64 => state.sumU64
  | .sumI64 => state.sumI64.toUInt64
  | .minU64 => if state.count = 0 then 0 else state.minU64
  | .maxU64 => state.maxU64
  | .minI64 => if state.count = 0 then 0 else state.minI64.toUInt64
  | .maxI64 => if state.count = 0 then 0 else state.maxI64.toUInt64
  | _ => 0

def accumulateRows (function : Function) (aggregate : Instruction) (stop : Option Nat) :
    List CanonicalEvent → AggregateState → Except Stop AggregateState
  | [], state => .ok state
  | event :: rest, state =>
    match function.entryBlock with
    | none => .error .fault
    | some block => do
      let input ← aggregateInput event aggregate stop 0 block.instructions (initialValues function)
      accumulateRows function aggregate stop rest (accumulate aggregate.opcode input state)

/-- `fuel` bounds the blocks a row may run through where there is no aggregate instruction. -/
def executeAggregate (function : Function) (fuel : Nat) (events : List CanonicalEvent) :
    Except Stop UInt64 :=
  match findAggregate function with
  | none => countRows function fuel events 0
  | some (b, i, aggregate) => do
    let state ← accumulateRows function aggregate (if b = 0 then
      some i else none) events AggregateState.initial
    return aggregateResult aggregate.opcode state

end VectorTick.ReferenceInterpreter
