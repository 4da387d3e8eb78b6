import Mathlib.Tactic
import VectorTick.Jit.CodeGenerator

/-! The code of an expression without calls, as a list.

The operands come first, each with the next free ids. So the results of an expression are numbered
without gaps, and its own result is the last of them. -/

set_option autoImplicit false

namespace VectorTick.Lowering

open Foundation Vts1 Query Ir Evaluation Jit

/-- The results that are computed for an expression before its own. -/
def under : Expression → Nat
  | .binaryOp _ left right _ _ => under left + under right + 2
  | .unaryOp _ operand _ _ => under operand + 1
  | .literal _ _ _ | .columnRef _ _ _ | .functionCall _ _ _ _ => 0

def resultType (op : TokenType) (type : IrType) : IrType :=
  match op with
  | .plus | .minus | .star | .slash | .percent => type
  | .amp | .pipe | .caret => .u64
  | _ => .i1

/-- `next` is the first free id. -/
def codeOf (row next : ValueId) : Expression → List Instruction
  | .literal value _ _ => [.constOp (.u64 value) next]
  | .columnRef name _ _ =>
    [.loadColumnOp (Builder.columnInfo name).1 row next (Builder.columnInfo name).2]
  | .binaryOp op left right _ _ =>
    codeOf row next left ++ codeOf row (next + under left + 1) right ++
      [⟨binaryOpcode op (operandType left right),
        [next + under left, next + under left + 1 + under right],
        next + under left + 1 + under right + 1, resultType op (operandType left right), .none⟩]
  | .unaryOp op operand _ _ =>
    codeOf row next operand ++
      [⟨unaryOpcode op, [next + under operand], next + under operand + 1, if op =
        .minus then .i64 else .i1, .none⟩]
  | .functionCall _ _ _ _ => []

theorem lowerBinary_resultType {op : TokenType} (known : isBinaryOperator op = true)
    (lhs rhs : ValueId) (type : IrType) :
    Builder.lowerBinary op lhs rhs type =
      Builder.define fun result =>
        ⟨binaryOpcode op type, [lhs, rhs], result, resultType op type, .none⟩ := by
  cases op <;> first | rfl | cases known

theorem lowerUnary_resultType {op : TokenType}
    (known : isUnaryOperator op = true) (operand : ValueId) :
    Builder.lowerUnary op operand = Builder.define fun result =>
      ⟨unaryOpcode op, [operand], result, if op = .minus then .i64 else .i1, .none⟩ := by
  cases op <;> first | rfl | cases known

theorem last_eq (next left right : Nat) :
    next + (left + right + 2) = next + left + 1 + right + 1 := by omega

theorem bind_run {α β : Type} (first : Builder.Build α)
    (next : α → Builder.Build β) (builder : Builder) :
    (first >>= next) builder = next (first builder).1 (first builder).2 := rfl

theorem lowerExpression_codeOf (e : Expression) (free : CallFree e) (builder : Builder) :
    Builder.lowerExpression e builder = (builder.function.nextValueId + under e,
      extend builder (codeOf (builder.function.parameters.headD 0) builder.function.nextValueId e)
        (builder.function.nextValueId + under e + 1)) := by
  induction e using Expression.induction (Q := fun _ => True) generalizing builder with
  | literal value line column => rfl
  | columnRef name line column => rfl
  | binaryOp op left right line column one two =>
    have whole : Builder.lowerExpression (.binaryOp op left right line column) =
        (Builder.lowerExpression left >>= fun lhs => Builder.lowerExpression right >>= fun rhs =>
          Builder.lowerBinary op lhs rhs (operandType left right)) := rfl
    have last : builder.function.nextValueId + under (.binaryOp op left right line column) =
        builder.function.nextValueId + under left + 1 + under right + 1 := last_eq _ _ _
    rw [whole, bind_run, one free.2.1, bind_run, two free.2.2,
      lowerBinary_resultType free.1, define_eq, last]
    simp only [extend_extend]
    rfl
  | unaryOp op operand line column ih =>
    have whole : Builder.lowerExpression (.unaryOp op operand line column) =
        (Builder.lowerExpression operand >>= fun value => Builder.lowerUnary op value) := rfl
    rw [whole, bind_run, ih free.2, lowerUnary_resultType free.1, define_eq]
    simp only [extend_extend]
    rfl
  | functionCall name args line column _ => exact free.elim
  | nil => trivial
  | cons => trivial

theorem buildFromQuery_codeOf {stmt : QueryStmt} {e : Expression}
    (statement : Builder.lowerStatement stmt = Builder.lowerExpression e >>= Builder.createReturn)
    (free : CallFree e) :
    Builder.buildFromQuery stmt =
      ⟨[⟨codeOf 1 2 e ++ [.returnOp (2 + under e)]⟩], [1], 2 + under e + 1⟩ := by
  change (Builder.lowerStatement stmt entered).2.function = _
  rw [statement]
  change (Builder.createReturn (Builder.lowerExpression e entered).1
    (Builder.lowerExpression e entered).2).2.function = _
  rw [lowerExpression_codeOf e free entered]
  rfl

/-- What expressions are lowered to. -/
inductive Lowered : Instruction → Prop where
  | constant (value : UInt64) (result : ValueId) : Lowered (.constOp (.u64 value) result)
  | column (id : UInt32) (row result : ValueId)
      (type : IrType) : Lowered (.loadColumnOp id row result type)
  | binary {op : TokenType} (known : isBinaryOperator op = true) (type : IrType)
      (operands : List ValueId)
    (result : ValueId)
      (resultType : IrType) : Lowered ⟨binaryOpcode op type, operands, result, resultType, .none⟩
  | unary (op : TokenType) (operands : List ValueId) (result : ValueId) (resultType : IrType) :
    Lowered ⟨unaryOpcode op, operands, result, resultType, .none⟩

theorem lowered_codeOf {e : Expression} (free : CallFree e) (row next : ValueId) :
    ∀ instr ∈ codeOf row next e, Lowered instr := by
  induction e using Expression.induction (Q := fun _ => True) generalizing next with
  | literal value line column => simpa [codeOf] using .constant value next
  | columnRef name line column => simpa [codeOf] using .column _ row next _
  | binaryOp op left right line column one two =>
    simp only [codeOf, List.mem_append, List.mem_singleton]
    rintro instr ((front | behind) | rfl)
    · exact one free.2.1 next instr front
    · exact two free.2.2 _ instr behind
    · exact .binary free.1 _ _ _ _
  | unaryOp op operand line column ih =>
    simp only [codeOf, List.mem_append, List.mem_singleton]
    rintro instr (front | rfl)
    · exact ih free.2 next instr front
    · exact .unary op _ _ _
  | functionCall name args line column _ => exact free.elim
  | nil => trivial
  | cons => trivial

theorem Lowered.defines {instr : Instruction} (lowered : Lowered instr) : defines instr = true := by
  cases lowered with
  | constant value result => rfl
  | column id row result type => rfl
  | @binary op _ type operands result resultType =>
    by_cases isSigned : type = .i64 <;>
      cases op <;> simp [Jit.defines, binaryOpcode, Builder.byType, isSigned]
  | unary op operands result resultType =>
    by_cases minus : op = .minus <;> simp [Jit.defines, unaryOpcode, minus]

theorem Lowered.constants {instr : Instruction} (lowered : Lowered instr) :
    ∀ constant, instr.payload = .constant constant →
      instr.opcode = (Instruction.constOp constant instr.result).opcode := by
  intro constant payload
  cases lowered <;> cases payload
  rfl

theorem results_append (first second : List Instruction) :
    results (first ++ second) = results first ++ results second := by
  simp [results]

theorem results_codeOf {e : Expression} (free : CallFree e) (row next : ValueId) :
    results (codeOf row next e) = List.range' next (under e + 1) := by
  have last : ∀ instr, Lowered instr → results [instr] = [instr.result] :=
    fun instr lowered => by simp [results, lowered.defines]
  induction e using Expression.induction (Q := fun _ => True) generalizing next with
  | literal value line column => exact last _ (.constant value next)
  | columnRef name line column => exact last _ (.column _ row next _)
  | binaryOp op left right line column one two =>
    have ranges : List.range' next (under left + 1 + (under right + 1) + 1) =
        List.range' next (under left + 1) ++
        List.range' (next + under left + 1)
          (under right + 1) ++ [next + under left + 1 + under right + 1] := by
      rw [List.range'_1_concat, ← List.range'_append_1]
      simp [Nat.add_assoc]
    rw [codeOf, results_append, results_append, one free.2.1, two free.2.2,
      last _ (.binary free.1 _ _ _ _), under,
      show under left + under right + 2 + 1 = under left + 1 + (under right + 1) + 1 by omega,
      ranges]
  | unaryOp op operand line column ih =>
    rw [codeOf, results_append, ih free.2, last _ (.unary op _ _ _), under,
      @List.range'_1_concat _ (under operand + 1)]
    rfl
  | functionCall name args line column _ => exact free.elim
  | nil => trivial
  | cons => trivial

/-- The row index is the only parameter, and no result has its id. -/
theorem ssa_codeOf {e : Expression} (free : CallFree e) :
    Ssa [1] (codeOf 1 2 e ++ [.returnOp (2 + under e)]) := by
  have ids : results (codeOf 1 2 e ++ [.returnOp (2 + under e)]) = List.range' 2 (under e + 1) := by
    rw [results_append, results_codeOf free]
    exact List.append_nil _
  refine ⟨?_, ?_, ?_⟩
  · rw [ids]
    exact List.nodup_range'
  · rw [ids]
    simp only [List.mem_range'_1, List.mem_singleton]
    rintro id ⟨low, -⟩ rfl
    exact absurd low (by decide)
  · simp only [List.mem_append, List.mem_singleton]
    rintro instr (inside | rfl) constant payload
    · exact (lowered_codeOf free 1 2 instr inside).constants constant payload
    · cases payload

end VectorTick.Lowering
