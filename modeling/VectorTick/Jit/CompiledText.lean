import Mathlib.Tactic
import VectorTick.Execution.Positions
import VectorTick.Jit.CompiledFilters

/-! From the text of a query to machine code.

How an expression is compiled does not depend on the positions of its tokens either.
-/

set_option autoImplicit false

namespace VectorTick.Jit.A64CodeGenerator

open Foundation Vts1 Query Ir Evaluation Lowering ReferenceInterpreter
open A64 (run)

theorem supported_shape (e : Expression) : Supported (shape e) = Supported e := by
  induction e using Expression.induction (Q := fun _ => True) with
  | binaryOp op left right line column one two => simp [shape, Supported, one, two]
  | literal | columnRef | unaryOp | functionCall => rfl
  | nil => trivial
  | cons => trivial

theorem logical_shape (e : Expression) : Logical (shape e) = Logical e := by
  induction e using Expression.induction (Q := fun _ => True) with
  | binaryOp op left right line column one two => simp [shape, Logical, one, two]
  | literal | columnRef | unaryOp | functionCall => rfl
  | nil => trivial
  | cons => trivial

theorem connected_shape (e : Expression) : Connected (shape e) = Connected e := by
  induction e using Expression.induction (Q := fun _ => True) with
  | binaryOp op left right line column one two => simp [shape, Connected, one, two, logical_shape]
  | unaryOp op operand line column ih => simp [shape, Connected, ih]
  | literal | columnRef | functionCall => rfl
  | nil => trivial
  | cons => trivial

theorem under_shape (e : Expression) : under (shape e) = under e := by
  induction e using Expression.induction (Q := fun _ => True) with
  | binaryOp op left right line column one two => simp [shape, under, one, two]
  | unaryOp op operand line column ih => simp [shape, under, ih]
  | literal | columnRef | functionCall => rfl
  | nil => trivial
  | cons => trivial

theorem fits_shape (n : Nat) (e : Expression) : Fits n (shape e) = Fits n e := by
  induction e using Expression.induction (Q := fun _ => True) generalizing n with
  | binaryOp op left right line column one two => simp [shape, Fits, one, two, under_shape]
  | unaryOp op operand line column ih => simp [shape, Fits, ih]
  | literal | columnRef | functionCall => rfl
  | nil => trivial
  | cons => trivial

/-- A filter in a query text is lexed, parsed, lowered and compiled to code that computes it. -/
theorem compiled_text {table : Bytes} (letters : NameText table)
    (named : Lexer.lookupKeyword table = .identifier)
    {e : Expression} (printable : Printable e) (free : CallFree e) (supported : Supported e = true)
    (connected : Connected e = true) (fits : Fits 0 e = true) {fuel : Nat}
    (enough : (printAt 0 e).length + 3 ≤ fuel) :
    ∃ stmt code, Parser.parse fuel (Lexer.written (Parser.filterWords table e)) = some (.ok stmt) ∧
      generate (Builder.buildFromQuery stmt) = .ok code ∧
      ∀ event value, evaluate event e = .ok value →
        ∀ machine : A64State, LiesAt event machine.memory (machine.regs .x0) →
        AddressSpace.Apart (machine.regs .x0) 56 (machine.regs .sp - 96) 96 →
        ∃ final, run (Element.word32.getMany (code.length / 4) code) machine =
          some (machine.regs .x30, final) ∧
          final.regs .x0 = value := by
  obtain ⟨outcome, rest, parsed, e', line, column, same, rfl⟩ :=
    Parser.parse_of_goes (Parser.goes_filter named printable enough)
      (Parser.stands_filterWords letters printable)
  -- The expression that was read has other positions only.
  have free' : CallFree e' := (callFree_shape e').mp (same ▸ (callFree_shape e).mpr free)
  have supported' : Supported e' = true := (of_shape supported_shape same).trans supported
  have connected' : Connected e' = true := (of_shape connected_shape same).trans connected
  have fits' : Fits 0 e' = true := (of_shape (fits_shape 0) same).trans fits
  obtain ⟨stmt, whole⟩ : ∃ stmt, stmt = Parser.filterQuery table e' line column := ⟨_, rfl⟩
  have plain : NoAggregate stmt := by rw [whole]; rfl
  have filter : stmt.whereExpr = some e' := by rw [whole]; rfl
  obtain ⟨code, accepted⟩ := generate_accepted plain filter free' supported'
  refine ⟨stmt, code, ?_, accepted, fun event value evaluated machine lies apart => ?_⟩
  · rw [parsed, whole]
  · have again : evaluate event e' = .ok value :=
      (of_shape (evaluate_shape event) same).trans evaluated
    exact run_filter plain filter free' supported' connected' fits' accepted
      again machine lies apart

theorem quoteFilter_written : Lexer.written (Parser.filterWords (nameBytes "events") quoteFilter) =
    nameBytes "FROM events WHERE price_ticks - 5 > 90 AND quantity == 10" := by
  simp [Lexer.written, Parser.filterWords, quoteFilter, printAt, spaced, precedence, Word.name,
    Word.symbol, Word.number, Word.numeral, operatorWord, spelled, nameBytes, tokenTypeName, code]

theorem compiled_text_quote :
    ∃ stmt code, Parser.parse 40
      (nameBytes "FROM events WHERE price_ticks - 5 > 90 AND quantity == 10") = some (.ok stmt) ∧
      generate (Builder.buildFromQuery stmt) = .ok code ∧
      ∃ final, run (Element.word32.getMany (code.length / 4) code)
      (entryWith VectorExecutor.sampleQuote) = some (64, final) ∧
        final.regs .x0 = 1 := by
  have printable : Printable quoteFilter := by
    have price : IsName (nameBytes "price_ticks") := isName_column .priceTicks
    have quantity : IsName (nameBytes "quantity") := isName_column .quantity
    simp [quoteFilter, Printable, isBinaryOperator, price, quantity]
  have free : CallFree quoteFilter :=
    ⟨rfl, ⟨rfl, ⟨rfl, trivial, trivial⟩, trivial⟩, rfl, trivial, trivial⟩
  have evaluated : evaluate VectorExecutor.sampleQuote quoteFilter = .ok 1 := by decide
  obtain ⟨stmt, code, parsed, accepted, runs⟩ := @compiled_text (nameBytes "events")
    (nameText_word (by decide)) lookupKeyword_table quoteFilter printable free
    (by decide) (by decide) (by decide) 40 (by decide)
  obtain ⟨final, ran, right⟩ :=
    runs VectorExecutor.sampleQuote 1 evaluated (entryWith VectorExecutor.sampleQuote)
    (lies_entryWith _) (apart_entryWith _)
  rw [quoteFilter_written] at parsed
  exact ⟨stmt, code, parsed, accepted, final, ran, right⟩

end VectorTick.Jit.A64CodeGenerator
