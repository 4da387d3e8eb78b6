import VectorTick.Execution.Lowering

/-! Whether a query gets stuck: what the parser accepts is executed to a value or an arithmetic
error, unless one of three things is reached first. A signed remainder and an aggregate call have
no instruction that a row executes, a call of any other function has no value to go on with, and
one signed quotient is out of range. -/

set_option autoImplicit false

namespace VectorTick.Progress

open Foundation Vts1 Query Ir Evaluation Lowering ReferenceInterpreter

def arithmeticErrors : List String :=
  [ "Addition overflow", "Subtraction underflow", "Multiplication overflow",
    "Division by zero", "Modulo by zero",
    "Negation overflow" ]

def isArithmetic : Stop → Bool
  | .status ⟨.internalError, message⟩ => message ∈ arithmeticErrors
  | _ => false

def endsWell {α : Type} : Except Stop α → Bool
  | .ok _ => true
  | .error stop => isArithmetic stop

@[simp] theorem endsWell_map {α β : Type} (f : α → β) (outcome : Except Stop α) :
    endsWell (outcome.map f) = endsWell outcome := by
  cases outcome <;> rfl

theorem endsWell_undefined {α : Type} : endsWell (undefinedValue : Except Stop α) = false :=
  (by decide : isArithmetic (.status ⟨.internalError, "Undefined SSA value"⟩) = false)

/-- The expression ends in an arithmetic error. -/
def Raises (event : CanonicalEvent) (e : Expression) : Prop :=
  ∃ stop, valueOf event e = .error stop ∧ isArithmetic stop = true

def isCall : Expression → Bool
  | .functionCall _ _ _ _ => true
  | _ => false

/-- The quotient of the least number and minus one. -/
def QuotientOverflows (event : CanonicalEvent) (left right : Expression) : Prop :=
  ∃ a b, valueOf event left = .ok (some a) ∧ valueOf event right = .ok (some b) ∧
    signed a = -2 ^ 63 ∧ signed b = -1

/-- The operation is implemented for its operands. -/
def Applies (event : CanonicalEvent) (op : TokenType) (left right : Expression) : Prop :=
  operandType left right = .i64 →
    op ≠ .percent ∧ (op = .slash → ¬ QuotientOverflows event left right)

mutual

/-- Up to its first arithmetic error, left to right, the expression has an instruction
and operands for everything. -/
def Proceeds (event : CanonicalEvent) : Expression → Prop
  | .literal _ _ _ | .columnRef _ _ _ => True
  | .binaryOp op left right _ _ =>
    Proceeds event left ∧ (Raises event left ∨ Proceeds event right ∧ (Raises event right ∨
      isCall left = false ∧ isCall right = false ∧ Applies event op left right))
  | .unaryOp _ operand _ _ =>
    Proceeds event operand ∧ (Raises event operand ∨ isCall operand = false)
  | .functionCall name args _ _ =>
    name.map toLower ≠ nameBytes "count" ∧ ProceedsCall event (name.map toLower) args

def ProceedsCall (event : CanonicalEvent) (fname : Bytes) : List Expression → Prop
  | [] => True
  | arg :: _ => Proceeds event arg ∧ (Raises event arg ∨ ¬ isAggregate fname)

end

theorem endsWell_fitSigned {message : String} (listed : message ∈ arithmeticErrors) (value : Int) :
    endsWell (fitSigned message value) = true := by
  unfold fitSigned
  by_cases fits : -2 ^ 63 ≤ value ∧ value < 2 ^ 63
  · rw [if_pos fits]
    rfl
  · rw [if_neg fits]
    exact decide_eq_true listed

theorem endsWell_arithmetic {message : String} (listed : message ∈ arithmeticErrors) (type : IrType) (op : Int → Int → Int)
    (a b : UInt64) : endsWell (arithmetic type message op a b) = true := by
  unfold arithmetic
  by_cases isSigned : type = .i64
  · rw [if_pos isSigned]
    exact endsWell_fitSigned listed _
  · rw [if_neg isSigned, fitUnsigned]
    by_cases fits : 0 ≤ op a.toNat b.toNat ∧ op a.toNat b.toNat < 2 ^ 64
    · rw [if_pos fits]
      rfl
    · rw [if_neg fits]
      exact decide_eq_true listed

theorem endsWell_quotient (type : IrType) (a b : UInt64) :
    endsWell (quotient type a b) = true ↔ ¬ (type = .i64 ∧ signed a = -2 ^ 63 ∧ signed b = -1) := by
  unfold quotient
  by_cases zero : b = 0
  · rw [if_pos zero, zero]
    refine iff_of_true (by decide) ?_
    rintro ⟨-, -, minusOne⟩
    exact absurd minusOne (by decide)
  rw [if_neg zero]
  by_cases isSigned : type = .i64
  · rw [if_pos isSigned]
    by_cases overflows : signed a = -2 ^ 63 ∧ signed b = -1
    · rw [if_pos overflows]
      exact iff_of_false Bool.false_ne_true fun other => other ⟨isSigned, overflows⟩
    · rw [if_neg overflows]
      exact iff_of_true rfl fun other => overflows other.2
  · rw [if_neg isSigned]
    exact iff_of_true rfl fun other => isSigned other.1

theorem endsWell_binary {op : TokenType} (known : isBinaryOperator op = true) {type : IrType}
    (implemented : ¬ (op = .percent ∧ type = .i64)) (a b : UInt64) :
    endsWell (applyBinary op type a b) = true ↔ ¬ (op = .slash ∧ type = .i64 ∧ signed a = -2 ^ 63 ∧ signed b = -1) := by
  cases op
  case plus => exact iff_of_true (endsWell_arithmetic
    (by decide) _ _ _ _) fun slash => absurd slash.1 (by decide)
  case minus => exact iff_of_true (endsWell_arithmetic
    (by decide) _ _ _ _) fun slash => absurd slash.1 (by decide)
  case star => exact iff_of_true (endsWell_arithmetic
    (by decide) _ _ _ _) fun slash => absurd slash.1 (by decide)
  case slash => exact (endsWell_quotient type a b).trans (not_congr (and_iff_right rfl).symm)
  case percent =>
    have isUnsigned : type ≠ .i64 := fun isSigned => implemented ⟨rfl, isSigned⟩
    refine iff_of_true ?_ fun slash => absurd slash.1 (by decide)
    change endsWell (remainder type a b) = true
    rw [remainder, if_neg isUnsigned]
    by_cases zero : b = 0
    · rw [if_pos zero]
      decide
    · rw [if_neg zero]
      rfl
  all_goals
    first | (cases known; done) | exact iff_of_true rfl fun slash => absurd slash.1 (by decide)

theorem endsWell_unary {op : TokenType} (known : isUnaryOperator op = true) (a : UInt64) :
    endsWell (applyUnary op a) = true := by
  cases op
  case minus => exact endsWell_fitSigned (by decide) _
  case bang => rfl
  all_goals cases known

theorem isCall_of_value {event : CanonicalEvent} {word : Option UInt64} : (e : Expression) →
    valueOf event e = .ok word →
    (isCall e = false ↔ word.isSome = true)
  | .literal _ _ _, computed => by
    cases computed
    exact iff_of_true rfl rfl
  | .columnRef _ _ _, computed => by
    cases computed
    exact iff_of_true rfl rfl
  | .binaryOp op left right _ _, computed => by
    refine iff_of_true rfl ?_
    rw [valueOf] at computed
    cases first : valueOf event left with
    | error stop =>
      rw [first] at computed
      cases computed
    | ok a =>
      cases second : valueOf event right with
      | error stop =>
        rw [first, second] at computed
        cases computed
      | ok b =>
        rw [first, second, ok_bind, ok_bind] at computed
        cases combined : combineBinary op (operandType left right) a b with
        | error stop =>
          rw [combined] at computed
          cases computed
        | ok value =>
          rw [combined] at computed
          cases computed
          rfl
  | .unaryOp op operand _ _, computed => by
    refine iff_of_true rfl ?_
    rw [valueOf] at computed
    cases first : valueOf event operand with
    | error stop =>
      rw [first] at computed
      cases computed
    | ok a =>
      rw [first, ok_bind] at computed
      cases combined : combineUnary op a with
      | error stop =>
        rw [combined] at computed
        cases computed
      | ok value =>
        rw [combined] at computed
        cases computed
        rfl
  | .functionCall name args _ _, computed => by
    have missing : word = none := by
      rw [valueOf] at computed
      by_cases count : name.map toLower = nameBytes "count"
      · rw [if_pos count] at computed
        cases computed
      · rw [if_neg count] at computed
        cases args with
        | nil =>
          cases computed
          rfl
        | cons arg rest =>
          rw [valueOfCall] at computed
          cases first : valueOf event arg with
          | error stop =>
            rw [first] at computed
            cases computed
          | ok a =>
            rw [first, ok_bind] at computed
            by_cases aggregate : isAggregate (name.map toLower)
            · rw [if_pos aggregate] at computed
              cases computed
            · rw [if_neg aggregate] at computed
              cases computed
              rfl
    rw [missing]
    exact iff_of_false (fun call => (nomatch call)) Bool.false_ne_true

theorem raises_iff {event : CanonicalEvent} {e : Expression} {outcome : Except Stop (Option UInt64)}
    (computed : valueOf event e = outcome) : Raises event e ↔
      ∃ stop, outcome = .error stop ∧ isArithmetic stop = true := by
  unfold Raises
  rw [computed]

theorem endsWell_bind {event : CanonicalEvent} {e : Expression}
    {next : Option UInt64 → Except Stop (Option UInt64)}
    {goesOn : Prop}
    (rest : ∀ word, valueOf event e = .ok word → (endsWell (next word) = true ↔ goesOn)) :
    endsWell (valueOf event e >>= next) = true ↔
      endsWell (valueOf event e) = true ∧ (Raises event e ∨ goesOn) := by
  rcases computed : valueOf event e with stop | word
  · rw [raises_iff computed]
    exact ⟨fun well => ⟨well, .inl ⟨stop, rfl, well⟩⟩, And.left⟩
  · have quiet : ¬ Raises event e := by
      rw [raises_iff computed]
      rintro ⟨stop, raised, -⟩
      cases raised
    rw [ok_bind, rest word computed]
    exact ⟨fun well => ⟨rfl, .inr well⟩, fun both => both.2.resolve_left quiet⟩

theorem endsWell_combine {event : CanonicalEvent} {op : TokenType}
    (known : isBinaryOperator op = true)
    {left right : Expression} {a b : Option UInt64} (first : valueOf event left = .ok a)
    (second : valueOf event right = .ok b) :
    endsWell (combineBinary op (operandType left right) a b) = true ↔
      isCall left = false ∧ isCall right = false ∧ Applies event op left right := by
  rw [isCall_of_value left first, isCall_of_value right second]
  unfold combineBinary Applies
  by_cases signedRemainder : op = .percent ∧ operandType left right = .i64
  · rw [if_pos signedRemainder]
    exact iff_of_false (by decide) fun all => (all.2.2 signedRemainder.2).1 signedRemainder.1
  rw [if_neg signedRemainder]
  cases a with
  | none =>
    exact iff_of_false
      (fun well => Bool.false_ne_true (endsWell_undefined.symm.trans well)) fun all =>
      Bool.false_ne_true all.1
  | some a =>
    cases b with
    | none =>
      exact iff_of_false
        (fun well => Bool.false_ne_true (endsWell_undefined.symm.trans well)) fun all =>
        Bool.false_ne_true all.2.1
    | some b =>
      have overflows : QuotientOverflows event left right ↔ signed a = -2 ^ 63 ∧ signed b = -1 := by
        constructor
        · rintro ⟨a', b', one, two, both⟩
          rw [first] at one
          rw [second] at two
          cases one
          cases two
          exact both
        · exact fun both => ⟨a, b, first, second, both⟩
      rw [endsWell_binary known signedRemainder, overflows]
      constructor
      · intro inRange
        exact ⟨rfl, rfl, fun isSigned =>
          ⟨fun percent => signedRemainder ⟨percent, isSigned⟩, fun slash both =>
            inRange ⟨slash, isSigned, both⟩⟩⟩
      · rintro ⟨-, -, applies⟩ ⟨slash, isSigned, both⟩
        exact (applies isSigned).2 slash both

theorem endsWell_combineUnary {event : CanonicalEvent} {op : TokenType}
    (known : isUnaryOperator op = true)
    {operand : Expression} {a : Option UInt64} (first : valueOf event operand = .ok a) :
    endsWell (combineUnary op a) = true ↔ isCall operand = false := by
  rw [isCall_of_value operand first]
  cases a with
  | none =>
    exact iff_of_false
      (fun well => Bool.false_ne_true (endsWell_undefined.symm.trans well)) Bool.false_ne_true
  | some a => exact iff_of_true (endsWell_unary known a) rfl

mutual

theorem endsWell_iff_proceeds (event : CanonicalEvent) : (e : Expression) → Parsed e →
    (endsWell (valueOf event e) = true ↔ Proceeds event e)
  | .literal _ _ _, _ => iff_of_true rfl trivial
  | .columnRef _ _ _, _ => iff_of_true rfl trivial
  | .binaryOp op left right _ _, parsed => by
    obtain ⟨known, parsedLeft, parsedRight⟩ := parsed
    rw [valueOf, Proceeds, ← endsWell_iff_proceeds event left parsedLeft,
      ← endsWell_iff_proceeds event right parsedRight]
    refine endsWell_bind fun a first => endsWell_bind fun b second => ?_
    rw [endsWell_map]
    exact endsWell_combine known first second
  | .unaryOp op operand _ _, parsed => by
    obtain ⟨known, parsedOperand⟩ := parsed
    rw [valueOf, Proceeds, ← endsWell_iff_proceeds event operand parsedOperand]
    refine endsWell_bind fun a first => ?_
    rw [endsWell_map]
    exact endsWell_combineUnary known first
  | .functionCall name args _ _, parsed => by
    rw [valueOf, Proceeds, ← endsWell_iff_proceedsCall event (name.map toLower) args parsed]
    by_cases count : name.map toLower = nameBytes "count"
    · rw [if_pos count]
      exact iff_of_false (by decide) fun both => both.1 count
    · rw [if_neg count]
      exact (and_iff_right count).symm

theorem endsWell_iff_proceedsCall (event : CanonicalEvent) (fname : Bytes) :
    (args : List Expression) → AllParsed args →
    (endsWell (valueOfCall event fname args) = true ↔ ProceedsCall event fname args)
  | [], _ => iff_of_true rfl trivial
  | arg :: _, parsed => by
    rw [valueOfCall, ProceedsCall, ← endsWell_iff_proceeds event arg parsed.1]
    refine endsWell_bind fun _ _ => ?_
    by_cases aggregate : isAggregate fname
    · rw [if_pos aggregate]
      exact iff_of_false (by decide) fun other => other aggregate
    · rw [if_neg aggregate]
      exact iff_of_true rfl aggregate

end

/-- What a statement with a `WHERE` is lowered to: the `WHERE`, or the first call among the
projections or the aggregations, which takes its place. -/
def executed (stmt : QueryStmt) (filter : Expression) : Expression :=
  match Builder.aggregateCall stmt with
  | some (name, args) => .functionCall name args 0 0
  | none => filter

theorem lowerStatement_executed {stmt : QueryStmt} {filter : Expression}
    (isFilter : stmt.whereExpr = some filter) :
    Builder.lowerStatement stmt =
      Builder.lowerExpression (executed stmt filter) >>= Builder.createReturn := by
  unfold Builder.lowerStatement executed
  cases Builder.aggregateCall stmt with
  | none => rw [isFilter]
  | some call =>
    obtain ⟨name, args⟩ := call
    dsimp only
    rw [Builder.lowerExpression]
    by_cases count : name.map toLower = nameBytes "count"
    · rw [if_pos count, if_pos count]
      rfl
    · rw [if_neg count, if_neg count]

theorem parsed_executed {stmt : QueryStmt} {filter : Expression} (parsed : Parser.ParsedStmt stmt)
    (isFilter : stmt.whereExpr = some filter) : Parsed (executed stmt filter) := by
  unfold executed
  cases call : Builder.aggregateCall stmt with
  | none => exact parsed.whereExpr filter isFilter
  | some found =>
    unfold Builder.aggregateCall at call
    rcases listed : stmt.aggregations with _ | ⟨⟨name, aggregation⟩, rest⟩
    · rw [listed] at call
      obtain ⟨item, projected, isCall⟩ := List.exists_of_findSome?_eq_some call
      have parsedItem := parsed.projections item projected
      rcases shape : item.expr with _ | e
      · rw [shape] at isCall
        cases isCall
      · rw [shape] at isCall
        cases e with
        | functionCall name args line column =>
          cases isCall
          have all : AllParsed args := parsedItem _ shape
          exact all
        | literal | columnRef | binaryOp | unaryOp => cases isCall
    · rw [listed] at call
      have parsedAggregation :=
        parsed.aggregations (name, aggregation) (by rw [listed]; exact List.mem_cons_self)
      cases aggregation with
      | functionCall name args line column =>
        cases call
        exact parsedAggregation
      | literal | columnRef | binaryOp | unaryOp => cases call

/-- An accepted query with a `WHERE` is executed to a value or an arithmetic error exactly when
nothing that is not implemented, and no missing value, comes before the first arithmetic error. -/
theorem query_ends_iff {parserFuel : Nat} {text : Bytes} {stmt : QueryStmt} {filter : Expression}
    (accepted : Parser.parse parserFuel text = some (.ok stmt))
    (isFilter : stmt.whereExpr = some filter) {fuel : Nat}
    (enough : 0 < fuel) (event : CanonicalEvent) :
    endsWell (execute (Builder.buildFromQuery stmt) fuel event) = true ↔
      Proceeds event (executed stmt filter) := by
  have parsed := parsed_executed (Parser.parse_parsed accepted) isFilter
  rw [execute_statement (lowerStatement_executed isFilter) parsed enough event, endsWell_map]
  exact endsWell_iff_proceeds event _ parsed

theorem query_ends_difference : ∃ stmt filter,
    Parser.parse 60 (nameBytes "SELECT * WHERE price - 5 > 90") = some (.ok stmt) ∧
      stmt.whereExpr = some filter ∧
      Proceeds VectorExecutor.sampleQuote (executed stmt filter) := by
  obtain ⟨stmt, accepted, tested⟩ :=
    @Parser.accepted_of_test 60 (nameBytes "SELECT * WHERE price - 5 > 90")
    (fun stmt => stmt.whereExpr.isSome && endsWell
      (execute (Builder.buildFromQuery stmt) 1 VectorExecutor.sampleQuote))
    (by decide +kernel)
  rw [Bool.and_eq_true] at tested
  obtain ⟨filter, isFilter⟩ := Option.isSome_iff_exists.mp tested.1
  exact ⟨stmt, filter, accepted, isFilter,
    (query_ends_iff accepted isFilter Nat.one_pos VectorExecutor.sampleQuote).mp tested.2⟩

/-- The price is signed, and its remainder is not implemented. -/
theorem query_stuck_remainder : ∃ stmt,
    Parser.parse 60 (nameBytes "SELECT * WHERE price % 2 = 0") = some (.ok stmt) ∧
      TypeChecker.checkQuery stmt = .ok () ∧ stmt.whereExpr.isSome = true ∧ stmt.aggregations = [] ∧
      Builder.aggregateCall stmt = none ∧
      execute (Builder.buildFromQuery stmt) 1 VectorExecutor.sampleQuote =
        failWith .notImplemented "Opcode not implemented" := by
  obtain ⟨stmt, accepted, tested⟩ :=
    @Parser.accepted_of_test 60 (nameBytes "SELECT * WHERE price % 2 = 0")
    (fun stmt => decide (TypeChecker.checkQuery stmt = .ok ()) && stmt.whereExpr.isSome &&
      stmt.aggregations.isEmpty &&
      (Builder.aggregateCall stmt).isNone && decide
        (execute (Builder.buildFromQuery stmt) 1 VectorExecutor.sampleQuote =
        failWith .notImplemented "Opcode not implemented")) (by decide +kernel)
  rw [Bool.and_eq_true, Bool.and_eq_true, Bool.and_eq_true, Bool.and_eq_true] at tested
  obtain ⟨⟨⟨⟨checked, filtered⟩, aggregations⟩, call⟩, stuck⟩ := tested
  exact ⟨stmt, accepted, of_decide_eq_true checked, filtered, List.isEmpty_iff.mp aggregations,
    Option.isNone_iff_eq_none.mp call, of_decide_eq_true stuck⟩

end VectorTick.Progress
