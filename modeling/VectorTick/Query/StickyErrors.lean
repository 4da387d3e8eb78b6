import VectorTick.Query.Parser

/-! An error of the parser stays.

No step takes an error back, so a step that ends without one began without one, and
so did every step inside it. -/

set_option autoImplicit false
set_option synthInstance.maxSize 1024

namespace VectorTick.Query

open Foundation

/-- A step that keeps an error there is. -/
class Sticky {α : Type} (parse : Parse α) : Prop where
  keeps : ∀ {parser after : Parser} {value : α}, parse parser = some (.ok (value, after)) →
    parser.hasError = true →
    after.hasError = true

namespace Sticky

variable {α β : Type}

/-- Without an error behind the step there was none before it. -/
theorem clean {parse : Parse α} [sticky : Sticky parse] {parser after : Parser} {value : α}
    (run : parse parser = some (.ok (value, after))) (none : after.hasError = false) :
    parser.hasError = false := by
  cases before : parser.hasError with
  | false => rfl
  | true =>
    rw [sticky.keeps run before] at none
    cases none

instance pure (value : α) : Sticky (Pure.pure value : Parse α) where
  keeps run error := by
    cases run
    exact error

instance outOfFuel : Sticky (Parse.outOfFuel : Parse α) where
  keeps run _ := by cases run

theorem bind_run {first : Parse α} {next : α → Parse β} {parser after : Parser} {value : β}
    (run : (first >>= next) parser = some (.ok (value, after))) :
    ∃ middle reached, first parser = some (.ok (middle, reached)) ∧
      next middle reached = some (.ok (value, after)) := by
  change Parse.bind first next parser = _ at run
  unfold Parse.bind at run
  cases step : first parser with
  | none =>
    rw [step] at run
    cases run
  | some outcome =>
    rw [step] at run
    cases outcome with
    | error stop => cases run
    | ok found => exact ⟨found.1, found.2, rfl, run⟩

instance bind {first : Parse α} {next : α → Parse β} [one : Sticky first]
    [two : ∀ value, Sticky (next value)] :
    Sticky (first >>= next) where
  keeps run error := by
    obtain ⟨middle, reached, start, rest⟩ := bind_run run
    exact (two middle).keeps rest (one.keeps start error)

instance ite {condition : Prop} [Decidable condition] {one two : Parse α}
    [first : Sticky one] [second : Sticky two] :
    Sticky (if condition then one else two) := by
  by_cases holds : condition
  · rw [if_pos holds]
    exact first
  · rw [if_neg holds]
    exact second

instance lexing (step : Lexer → Except Stop (α × Lexer)) : Sticky (Parse.lexing step) where
  keeps := by
    intro parser after value run error
    unfold Parse.lexing at run
    cases found : step parser.lexer with
    | error stop =>
      rw [found] at run
      cases run
    | ok reached =>
      rw [found] at run
      cases run
      exact error

instance failed : Sticky Parser.failed where
  keeps run error := by
    cases run
    exact error

/-- The check for an error behind an operand that may not be there. -/
theorem behind {rest : Option α → Bool → Parse β} (absent : ∀ error, Sticky (rest none error))
    (present : ∀ value error, Sticky (rest (some value) error)) :
    ∀ operand, Sticky (Parser.failed >>= rest operand) := by
  intro operand
  refine @Sticky.bind _ _ _ _ _ fun error => ?_
  cases operand with
  | none => exact absent error
  | some value => exact present value error

end Sticky

namespace Parser

instance : Sticky currentToken := Sticky.lexing _

instance : Sticky advance := Sticky.lexing _

instance (msg : String) (line column : Nat) : Sticky (setError msg line column) where
  keeps := by
    intro parser after value run error
    unfold setError at run
    rw [if_pos error] at run
    cases run
    exact error

instance (msg : String) : Sticky (errorHere msg) := by unfold errorHere; infer_instance

instance (type : TokenType) : Sticky (check type) := by unfold check; infer_instance

instance (type : TokenType) : Sticky (accept type) := by unfold accept; infer_instance

instance (type : TokenType) (msg : String) :
    Sticky (expect type msg) := by unfold expect; infer_instance

instance : Sticky another := by unfold another; infer_instance

instance (type : TokenType) : Sticky (matched type) := by unfold matched; infer_instance

instance (types : List TokenType) : Sticky (checked types) := by unfold checked; infer_instance

section Levels

variable {operator : Operator} {operand expression : Parse (Option Expression)}
  [Sticky operator] [Sticky operand]
  [Sticky expression]

instance (fuel : Nat) (left : Expression) : Sticky (joinLeft operator operand fuel left) := by
  induction fuel generalizing left with
  | zero => exact Sticky.outOfFuel
  | succ fuel ih =>
    refine @Sticky.bind _ _ _ _ _ fun found => ?_
    cases found with
    | none => exact Sticky.pure _
    | some node =>
      exact @Sticky.bind _ _ _ _ _ 
        (Sticky.behind (fun _ => Sticky.pure _) fun _ _ =>
          @Sticky.ite _ _ _ _ _ (Sticky.pure _) (ih _))

instance (fuel : Nat) : Sticky (parseLevel operator operand fuel) := by
  exact @Sticky.bind _ _ _ _ _ (Sticky.behind (fun _ => Sticky.pure _) fun _ _ => Sticky.ite)

instance (fuel : Nat) (args : List Expression) : Sticky (parseArguments expression fuel args) := by
  induction fuel generalizing args with
  | zero => exact Sticky.outOfFuel
  | succ fuel ih =>
    refine @Sticky.bind _ _ _ _ _ (Sticky.behind (fun _ => Sticky.pure _) fun arg _ => ?_)
    refine @Sticky.ite _ _ _ _ _ (Sticky.pure _) (@Sticky.bind _ _ _ _ _ fun goesOn => ?_)
    exact @Sticky.ite _ _ _ _ _ (ih _) (Sticky.pure _)

instance (fuel : Nat) : Sticky (parseCallArguments expression fuel) := by
  unfold parseCallArguments; infer_instance

instance (fuel : Nat) (name : Bytes) (line column : Nat) :
    Sticky (parseFunctionCall expression fuel name line column) := by
  refine @Sticky.bind _ _ _ _ _ fun _ => @Sticky.bind _ _ _ _ _ fun args => ?_
  cases args with
  | none => exact Sticky.pure _
  | some args => exact Sticky.bind

instance (fuel : Nat) : Sticky (parseName expression fuel) := by unfold parseName; infer_instance

/-- The expression in parentheses, behind the first of them. -/
instance enclosed_sticky : Sticky (do
    let expr ← expression
    let error ← failed
    match expr with
    | none => return none
    | some expr =>
      if error then return none
      else if ← accept .rParen then return some expr
      else do
        errorHere "Expected ')' after expression"
        return none) := by
  exact @Sticky.bind _ _ _ _ _ (Sticky.behind (fun _ => Sticky.pure _) fun _ _ => Sticky.ite)

instance (fuel : Nat) :
    Sticky (parsePrimaryExpr expression fuel) := by unfold parsePrimaryExpr; infer_instance

instance (fuel : Nat) : Sticky (parseUnaryExpr expression fuel) := by
  induction fuel with
  | zero => exact Sticky.outOfFuel
  | succ fuel ih =>
    refine @Sticky.bind _ _ _ _ _ fun token =>
      @Sticky.ite _ _ _ _ _ (@Sticky.bind _ _ _ _ _ fun op => ?_) inferInstance
    exact @Sticky.bind _ _ _ _ ih (Sticky.behind (fun _ => Sticky.pure _) fun _ _ => Sticky.ite)

end Levels

instance parseExpression_sticky (fuel : Nat) : Sticky (parseExpression fuel) := by
  induction fuel with
  | zero => exact Sticky.outOfFuel
  | succ fuel ih =>
    unfold parseExpression parseOrExpr parseAndExpr parseBitwiseOrExpr
      parseBitwiseXorExpr parseBitwiseAndExpr
      parseEqualityExpr parseComparisonExpr parseAdditiveExpr parseMultiplicativeExpr
    infer_instance

instance (bare : Bool) : Sticky (parseAlias bare) := by unfold parseAlias; infer_instance

instance (bare : Bool) (fuel : Nat) (items : List SelectItem) :
    Sticky (parseProjections bare fuel items) := by
  induction fuel generalizing items with
  | zero => exact Sticky.outOfFuel
  | succ fuel ih =>
    unfold parseProjections
    infer_instance

instance (fuel : Nat) (columns : List Bytes) : Sticky (parseGroupColumns fuel columns) := by
  induction fuel generalizing columns with
  | zero => exact Sticky.outOfFuel
  | succ fuel ih =>
    unfold parseGroupColumns
    infer_instance

instance (fuel : Nat) :
    Sticky (parseAggregationArgument fuel) := by unfold parseAggregationArgument; infer_instance

instance (fuel : Nat) : Sticky (parseAggregation fuel) := by unfold parseAggregation; infer_instance

instance (fuel : Nat) (aggregations : List (Bytes × Expression)) :
    Sticky (parseAggregations fuel aggregations) := by
  induction fuel generalizing aggregations with
  | zero => exact Sticky.outOfFuel
  | succ fuel ih =>
    refine @Sticky.bind _ _ _ _ _ fun found => ?_
    cases found with
    | none => exact Sticky.pure _
    | some aggregation =>
      exact @Sticky.bind _ _ _ _ _ fun goesOn => @Sticky.ite _ _ _ _ _ (ih _) (Sticky.pure _)

instance : Sticky parseAscending := by unfold parseAscending; infer_instance

instance (fuel : Nat) (columns : List (Bytes × Bool)) :
    Sticky (parseOrderColumns fuel columns) := by
  induction fuel generalizing columns with
  | zero => exact Sticky.outOfFuel
  | succ fuel ih =>
    unfold parseOrderColumns
    infer_instance

section Clauses

variable (fuel : Nat) (query : QueryStmt)

instance : Sticky (parseSelect fuel query) := by unfold parseSelect; infer_instance

instance : Sticky (parseWhere fuel query) := by unfold parseWhere; infer_instance

instance : Sticky (parseLet fuel query) := by unfold parseLet; infer_instance

instance : Sticky (parseTumble fuel query) := by unfold parseTumble; infer_instance

instance : Sticky (parseGroup fuel query) := by unfold parseGroup; infer_instance

instance : Sticky (parseAgg fuel query) := by unfold parseAgg; infer_instance

instance : Sticky (parseOrder fuel query) := by unfold parseOrder; infer_instance

instance : Sticky (parseLimit query) := by unfold parseLimit; infer_instance

instance (type : TokenType) : Sticky (parseClause fuel type query) := by
  unfold parseClause
  cases type <;> infer_instance

instance parseClauses_sticky (fuel : Nat) (query : QueryStmt) :
    Sticky (parseClauses fuel query) := by
  induction fuel generalizing query with
  | zero => exact Sticky.outOfFuel
  | succ fuel ih =>
    unfold parseClauses
    infer_instance

instance : Sticky (finish query) where
  keeps run error := by
    cases run
    exact error

instance : Sticky (parseFrom fuel query) := by unfold parseFrom; infer_instance

end Clauses

end Parser

end VectorTick.Query
