import VectorTick.Query.Grammar

/-! Expressions with calls. The interpreter has no instruction for an aggregate on one row, and a
call of any other function is lowered to no value at all. -/

set_option autoImplicit false

namespace VectorTick.Evaluation

open Foundation Vts1 Query Ir ReferenceInterpreter

def unsupported {α : Type} : Except Stop α := failWith .notImplemented "Opcode not implemented"

def undefinedValue {α : Type} : Except Stop α := failWith .internalError "Undefined SSA value"

/-- A binary operation on operands that may have no value. The signed
remainder does not get to them. -/
def combineBinary (op : TokenType) (type : IrType) (a b : Option UInt64) : Except Stop UInt64 :=
  if op = .percent ∧ type = .i64 then unsupported
  else match a, b with
    | some a, some b => applyBinary op type a b
    | _, _ => undefinedValue

def combineUnary (op : TokenType) : Option UInt64 → Except Stop UInt64
  | some a => applyUnary op a
  | none => undefinedValue

/-- The functions that are lowered to an aggregate of their argument. -/
def isAggregate (fname : Bytes) : Prop :=
  fname = nameBytes "sum" ∨ fname = nameBytes "min" ∨ fname = nameBytes "max"

instance (fname : Bytes) : Decidable (isAggregate fname) := inferInstanceAs (Decidable (_ ∨ _))

mutual

/-- The value of an expression on an event, none for a call that is not of an aggregate. -/
def valueOf (event : CanonicalEvent) : Expression → Except Stop (Option UInt64)
  | .literal value _ _ => .ok (some value)
  | .columnRef name _ _ =>
    .ok (some (UInt64.ofInt (VectorExecutor.columnValue (columnNamed name) event)))
  | .binaryOp op left right _ _ => do
    let a ← valueOf event left
    let b ← valueOf event right
    (combineBinary op (operandType left right) a b).map some
  | .unaryOp op operand _ _ => do
    let a ← valueOf event operand
    (combineUnary op a).map some
  | .functionCall name args _ _ =>
    if name.map toLower = nameBytes "count" then
      unsupported else valueOfCall event (name.map toLower) args

def valueOfCall (event : CanonicalEvent) (fname : Bytes) : List Expression →
    Except Stop (Option UInt64)
  | [] => .ok none
  | arg :: _ => do
    let _ ← valueOf event arg
    if isAggregate fname then unsupported else .ok none

end

theorem valueOf_callFree (event : CanonicalEvent) : (e : Expression) → CallFree e →
    valueOf event e = (evaluate event e).map some
  | .literal _ _ _, _ => rfl
  | .columnRef _ _ _, _ => rfl
  | .binaryOp op left right _ _, free => by
    rw [valueOf, evaluate, valueOf_callFree event left free.2.1,
      valueOf_callFree event right free.2.2]
    cases evaluate event left with
    | error stop => rfl
    | ok a =>
      cases evaluate event right with
      | error stop => rfl
      | ok b =>
        change (combineBinary op (operandType left right) (some a) (some b)).map some =
          (applyBinary op (operandType left right) a b).map some
        unfold combineBinary
        by_cases signedRemainder : op = .percent ∧ operandType left right = .i64
        · rw [if_pos signedRemainder, signedRemainder.1, signedRemainder.2]
          rfl
        · rw [if_neg signedRemainder]
  | .unaryOp op operand _ _, free => by
    rw [valueOf, evaluate, valueOf_callFree event operand free.2]
    cases evaluate event operand with
    | error stop => rfl
    | ok a => rfl

theorem parsed_callFree : (e : Expression) → CallFree e → Parsed e
  | .literal _ _ _, _ => trivial
  | .columnRef _ _ _, _ => trivial
  | .binaryOp _ left right _ _, free =>
    ⟨free.1, parsed_callFree left free.2.1, parsed_callFree right free.2.2⟩
  | .unaryOp _ operand _ _, free => ⟨free.1, parsed_callFree operand free.2⟩

section Instructions

variable {values : Values} {instr : Instruction} {event : CanonicalEvent} {a b : Option UInt64}

theorem getVal_none {id : ValueId} (missing : values id = none) :
    getVal values id = undefinedValue := by
  unfold getVal
  rw [missing]
  rfl

/-- The opcodes that read two operands before anything else. -/
def readsTwo : Opcode → Bool
  | .addI64 | .subI64 | .mulI64 | .divI64 | .addU64 | .subU64 | .mulU64 | .divU64 | .modU64 |
    .eqI64 | .neI64 | .ltI64
  | .leI64 | .gtI64 | .geI64 | .eqU64 | .neU64 | .ltU64 | .leU64 | .gtU64 | .geU64 |
      .and | .or | .bitAnd | .bitOr
  | .bitXor => true
  | _ => false

theorem execute_readsTwo (two : readsTwo instr.opcode = true) :
    ∃ compute, executeInstruction values instr event = binary values instr compute := by
  unfold executeInstruction
  cases op : instr.opcode <;> rw [op] at two <;> first | (cases two; done) | exact ⟨_, rfl⟩

theorem readsTwo_binaryOpcode {op : TokenType} {type : IrType}
    (implemented : ¬ (op = .percent ∧ type = .i64)) :
    readsTwo (binaryOpcode op type) = true := by
  unfold binaryOpcode Builder.byType
  by_cases isSigned : type = .i64
  · simp only [isSigned, if_true]
    cases op <;> first | rfl | exact absurd ⟨rfl, isSigned⟩ implemented
  · simp only [isSigned, if_false]
    cases op <;> rfl

theorem execute_combineBinary {op : TokenType} (known : isBinaryOperator op = true) {type : IrType}
    (code : instr.opcode = binaryOpcode op type) (first : values (operand instr 0) = a)
    (second : values (operand instr 1) = b) :
    executeInstruction values instr event =
      (combineBinary op type a b).map (setValue values instr.result) := by
  unfold combineBinary
  by_cases signedRemainder : op = .percent ∧ type = .i64
  · obtain ⟨rfl, rfl⟩ := signedRemainder
    have notImplemented : instr.opcode = .modI64 := code
    rw [if_pos ⟨rfl, rfl⟩, executeInstruction, notImplemented]
    rfl
  · rw [if_neg signedRemainder]
    cases a with
    | some a =>
      cases b with
      | some b => exact execute_binary known code first second
      | none =>
        obtain ⟨compute, reads⟩ :=
          @execute_readsTwo values instr event (by rw [code, readsTwo_binaryOpcode signedRemainder])
        rw [reads, binary, getVal_none second, getVal, first]
        rfl
    | none =>
      obtain ⟨compute, reads⟩ :=
        @execute_readsTwo values instr event (by rw [code, readsTwo_binaryOpcode signedRemainder])
      rw [reads, binary, getVal_none first]
      rfl

theorem execute_combineUnary {op : TokenType} (known : isUnaryOperator op = true)
    (code : instr.opcode = unaryOpcode op)
    (first : values (operand instr 0) = a) :
    executeInstruction values instr event =
      (combineUnary op a).map (setValue values instr.result) := by
  cases a with
  | some a => exact execute_unary known code first
  | none =>
    cases op
    case minus =>
      have minus : instr.opcode = .negI64 := code
      obtain ⟨compute, reads⟩ : ∃ compute, executeInstruction values instr event =
        unary values instr compute :=
        ⟨_, by rw [executeInstruction, minus]⟩
      rw [reads, unary, getVal_none first]
      rfl
    case bang =>
      have bang : instr.opcode = .not := code
      obtain ⟨compute, reads⟩ : ∃ compute, executeInstruction values instr event =
        unary values instr compute :=
        ⟨_, by rw [executeInstruction, bang]⟩
      rw [reads, unary, getVal_none first]
      rfl
    all_goals cases known

theorem execute_aggregate (aggregate : instr.opcode.isAggregate = true) :
    executeInstruction values instr event = unsupported := by
  unfold executeInstruction
  cases op : instr.opcode <;> rw [op] at aggregate <;> first | (cases aggregate; done) | rfl

end Instructions

end VectorTick.Evaluation
