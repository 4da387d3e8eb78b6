import VectorTick.Query.Printing

/-! What an expression means does not depend on the positions of its tokens. -/

set_option autoImplicit false

namespace VectorTick.Evaluation

open Foundation Vts1 Query Ir

theorem inferType_shape (e : Expression) : Builder.inferType (shape e) = Builder.inferType e := by
  induction e using Expression.induction (Q := fun _ => True) with
  | binaryOp op left right line column one two => simp [shape, Builder.inferType, one, two]
  | unaryOp op operand line column ih => simp [shape, Builder.inferType, ih]
  | literal | columnRef | functionCall => rfl
  | nil => trivial
  | cons => trivial

theorem operandType_shape (left right : Expression) :
    operandType (shape left) (shape right) = operandType left right := by
  simp [operandType, inferType_shape]

theorem evaluate_shape (event : CanonicalEvent) (e : Expression) :
    evaluate event (shape e) = evaluate event e := by
  induction e using Expression.induction (Q := fun _ => True) with
  | binaryOp op left right line column one two =>
    simp [shape, evaluate, one, two, operandType_shape]
  | unaryOp op operand line column ih => simp [shape, evaluate, ih]
  | literal | columnRef | functionCall => rfl
  | nil => trivial
  | cons => trivial

theorem callFree_shape (e : Expression) : CallFree (shape e) ↔ CallFree e := by
  induction e using Expression.induction (Q := fun _ => True) with
  | binaryOp op left right line column one two => simp [shape, CallFree, one, two]
  | unaryOp op operand line column ih => simp [shape, CallFree, ih]
  | literal | columnRef | functionCall => rfl
  | nil => trivial
  | cons => trivial

/-- The vectorised filter looks at the root and its two operands only. -/
theorem passes_shape (event : CanonicalEvent) (e : Expression) :
    VectorExecutor.passes (some (shape e)) event = VectorExecutor.passes (some e) event := by
  cases e with
  | binaryOp op left right line column =>
    cases left with
    | columnRef name l c => cases right <;> rfl
    | literal | binaryOp | unaryOp | functionCall => rfl
  | literal | columnRef | unaryOp | functionCall => rfl

/-- Expressions that differ in positions only. -/
theorem of_shape {α : Type} {f : Expression → α} (blind : ∀ e, f (shape e) = f e)
    {first second : Expression}
    (same : shape first = shape second) : f first = f second := by
  rw [← blind first, same, blind]

end VectorTick.Evaluation
