import VectorTick.Execution.Evaluation
import VectorTick.Query.Parser

/-! What the parser makes: the operators in its expressions are those of the grammar. -/

set_option autoImplicit false

namespace VectorTick.Query

open Foundation Evaluation

mutual

/-- Every operator in the expression is one the parser knows. -/
def Parsed : Expression → Prop
  | .literal _ _ _ | .columnRef _ _ _ => True
  | .binaryOp op left right _ _ => isBinaryOperator op = true ∧ Parsed left ∧ Parsed right
  | .unaryOp op operand _ _ => isUnaryOperator op = true ∧ Parsed operand
  | .functionCall _ args _ _ => AllParsed args

def AllParsed : List Expression → Prop
  | [] => True
  | arg :: rest => Parsed arg ∧ AllParsed rest

end

theorem AllParsed.snoc {args : List Expression} {arg : Expression}
    (front : AllParsed args) (last : Parsed arg) :
    AllParsed (args ++ [arg]) := by
  induction args with
  | nil => exact ⟨last, trivial⟩
  | cons first args ih => exact ⟨front.1, ih front.2⟩

/-- Whatever the state, a value that the step returns satisfies the condition. -/
def Yields {α : Type} (parse : Parse α) (post : α → Prop) : Prop :=
  ∀ parser value after, parse parser = some (.ok (value, after)) → post value

section Yields

variable {α β : Type} {post : β → Prop}

theorem Yields.pure {value : β} (holds : post value) : Yields (Pure.pure value : Parse β) post := by
  intro parser returned after run
  cases run
  exact holds

theorem Yields.outOfFuel : Yields (Parse.outOfFuel : Parse β) post := by
  intro parser returned after run
  cases run

theorem Yields.bind {first : Parse α} {next : α → Parse β} {middle : α → Prop}
    (one : Yields first middle)
    (two : ∀ value, middle value → Yields (next value) post) : Yields (first >>= next) post := by
  intro parser returned after run
  change Parse.bind first next parser = _ at run
  unfold Parse.bind at run
  cases step : first parser with
  | none =>
    rw [step] at run
    cases run
  | some outcome =>
    rw [step] at run
    cases outcome with
    | error stop => cases run
    | ok reached =>
      exact two reached.1 (one parser reached.1 reached.2 step) reached.2 returned after run

/-- A step of whose value nothing is known. -/
theorem Yields.after {first : Parse α} {next : α → Parse β}
    (two : ∀ value, Yields (next value) post) :
    Yields (first >>= next) post :=
  Yields.bind (fun _ _ _ _ => trivial : Yields first fun _ => True) fun value _ => two value

theorem Yields.ite {condition : Prop} [Decidable condition] {one two : Parse β}
    (first : condition → Yields one post)
    (second : ¬ condition → Yields two post) : Yields (if condition then one else two) post := by
  by_cases holds : condition
  · rw [if_pos holds]
    exact first holds
  · rw [if_neg holds]
    exact second holds

end Yields

namespace Parser

/-- The token that was looked at is the one that is taken next. -/
theorem advance_ahead {parser after : Parser} {token : Token}
    (ahead : currentToken parser = some (.ok (token, after))) :
    ∃ later, advance after = some (.ok (token, later)) := by
  unfold currentToken Parse.lexing at ahead
  cases peeked : parser.lexer.peekToken with
  | error stop =>
    rw [peeked] at ahead
    cases ahead
  | ok found =>
    rw [peeked] at ahead
    cases ahead
    have kept : found.2.hasPeeked = true ∧ found.2.peekedToken = found.1 := by
      unfold Lexer.peekToken at peeked
      by_cases already : parser.lexer.hasPeeked = true
      · rw [if_pos already] at peeked
        cases peeked
        exact ⟨already, rfl⟩
      · rw [if_neg already] at peeked
        cases next : parser.lexer.nextToken with
        | error stop =>
          rw [next] at peeked
          cases peeked
        | ok taken =>
          rw [next] at peeked
          cases peeked
          exact ⟨rfl, rfl⟩
    unfold advance Parse.lexing Lexer.nextToken
    dsimp only
    rw [if_pos kept.1, kept.2]
    exact ⟨_, rfl⟩

/-- A token is taken that passed a test when it was ahead. -/
theorem yields_ahead {β : Type} {post : β → Prop} {test : Token → Prop} [DecidablePred test]
    {taken other : Token → Parse β}
    (one : ∀ token, test token → Yields (taken token) post)
    (two : ∀ token, ¬ test token → Yields (other token) post) :
    Yields (currentToken >>= fun token => if test token then advance >>= taken
      else other token) post := by
  intro parser returned after run
  change Parse.bind currentToken _ parser = _ at run
  unfold Parse.bind at run
  cases ahead : currentToken parser with
  | none =>
    rw [ahead] at run
    cases run
  | some outcome =>
    rw [ahead] at run
    cases outcome with
    | error stop => cases run
    | ok reached =>
      obtain ⟨token, middle⟩ := reached
      dsimp only at run
      by_cases passes : test token
      · obtain ⟨later, next⟩ := advance_ahead ahead
        rw [if_pos passes] at run
        change Parse.bind advance taken middle = _ at run
        rw [Parse.bind, next] at run
        exact one token passes later returned after run
      · rw [if_neg passes] at run
        exact two token passes middle returned after run

def Sound (parse : Parse (Option Expression)) : Prop :=
  Yields parse fun found => ∀ e, found = some e → Parsed e

def KnowsOperators (operator : Operator) : Prop :=
  Yields operator fun found => ∀ op place, found = some (op, place) → isBinaryOperator op = true

theorem Sound.none : Sound (pure none) := Yields.pure fun _ found => (nomatch found)

theorem Sound.some {e : Expression} (parsed : Parsed e) : Sound (pure (some e)) :=
  Yields.pure fun _ found => Option.some.inj found ▸ parsed

theorem matched_knows {type : TokenType} (known : isBinaryOperator type = true) :
    KnowsOperators (matched type) := by
  refine Yields.after fun found => Yields.ite (fun _ => Yields.after fun token => ?_) fun _ => ?_
  · exact Yields.pure fun op place same => by cases same; exact known
  · exact Yields.pure fun op place none => (nomatch none)

theorem checked_knows {types : List TokenType}
    (known : ∀ type ∈ types, isBinaryOperator type = true) :
    KnowsOperators (checked types) := by
  refine yields_ahead (fun token listed => ?_) fun token _ => ?_
  · exact Yields.pure fun op place same => by cases same; exact known _ listed
  · exact Yields.pure fun op place none => (nomatch none)

section Levels

variable {operator : Operator} {operand expression : Parse (Option Expression)}

theorem joinLeft_sound (knows : KnowsOperators operator) (below : Sound operand)
    (fuel : Nat) {left : Expression}
    (parsed : Parsed left) : Sound (joinLeft operator operand fuel left) := by
  induction fuel generalizing left with
  | zero => exact Yields.outOfFuel
  | succ fuel ih =>
    refine Yields.bind knows fun found known => ?_
    cases found with
    | none => exact Sound.some parsed
    | some node =>
      refine Yields.bind below fun right rightParsed => Yields.after fun error => ?_
      cases right with
      | none => exact Sound.none
      | some right =>
        refine Yields.ite (fun _ => Sound.none) fun _ => ?_
        exact ih ⟨known _ _ rfl, parsed, rightParsed right rfl⟩

theorem parseLevel_sound (knows : KnowsOperators operator) (below : Sound operand) (fuel : Nat) :
    Sound (parseLevel operator operand fuel) := by
  refine Yields.bind below fun left parsed => Yields.after fun error => ?_
  cases left with
  | none => exact Sound.none
  | some left =>
    exact Yields.ite (fun _ => Sound.some (parsed left rfl)) fun _ =>
      joinLeft_sound knows below fuel (parsed left rfl)

theorem parseArguments_sound (inner : Sound expression) (fuel : Nat) {args : List Expression}
    (parsed : AllParsed args) :
    Yields (parseArguments expression fuel args) fun found => ∀ all, found = some all →
      AllParsed all := by
  induction fuel generalizing args with
  | zero => exact Yields.outOfFuel
  | succ fuel ih =>
    refine Yields.bind inner fun arg argParsed => Yields.after fun error => ?_
    cases arg with
    | none => exact Yields.pure fun _ none => (nomatch none)
    | some arg =>
      have more := parsed.snoc (argParsed arg rfl)
      refine Yields.ite (fun _ => Yields.pure fun _ none => (nomatch none)) fun _ =>
        Yields.after fun goesOn => ?_
      exact Yields.ite (fun _ => ih more) fun _ => Yields.pure fun _ same =>
        Option.some.inj same ▸ more

theorem parseCallArguments_sound (inner : Sound expression) (fuel : Nat) :
    Yields (parseCallArguments expression fuel) fun found => ∀ all, found = some all →
      AllParsed all := by
  have nothing : Yields (pure (some []) : Parse (Option (List Expression))) fun found => ∀ all,
      found = some all → AllParsed all :=
    Yields.pure fun _ same => Option.some.inj same ▸ trivial
  refine Yields.after fun star => Yields.ite (fun _ => nothing) fun _ =>
    Yields.after fun empty => ?_
  exact Yields.ite (fun _ => nothing) fun _ => parseArguments_sound inner fuel trivial

theorem parseFunctionCall_sound (inner : Sound expression) (fuel : Nat)
    (name : Bytes) (line column : Nat) :
    Sound (parseFunctionCall expression fuel name line column) := by
  refine Yields.after fun _ =>
    Yields.bind (parseCallArguments_sound inner fuel) fun args parsed => ?_
  cases args with
  | none => exact Sound.none
  | some args =>
    refine Yields.after fun closed => Yields.ite (fun _ => Sound.some (parsed args rfl)) fun _ => ?_
    exact Yields.after fun _ => Sound.none

theorem parsePrimaryExpr_sound (inner : Sound expression) (fuel : Nat) :
    Sound (parsePrimaryExpr expression fuel) := by
  refine Yields.after fun token => Yields.after fun integer =>
    Yields.ite (fun _ => Sound.some trivial) fun _ => ?_
  refine Yields.after fun isTrue => Yields.ite (fun _ => Sound.some trivial) fun _ => ?_
  refine Yields.after fun isFalse => Yields.ite (fun _ => Sound.some trivial) fun _ => ?_
  refine Yields.after fun opens => Yields.ite (fun _ => ?_) fun _ => Yields.after fun ahead =>
    Yields.ite (fun _ => ?_) fun _ => ?_
  · refine Yields.bind inner fun expr parsed => Yields.after fun error => ?_
    cases expr with
    | none => exact Sound.none
    | some expr =>
      refine Yields.ite (fun _ => Sound.none) fun _ => Yields.after fun closed => ?_
      exact Yields.ite (fun _ => Sound.some (parsed expr rfl)) fun _ =>
        Yields.after fun _ => Sound.none
  · refine Yields.after fun name => Yields.after fun call => ?_
    exact Yields.ite (fun _ => parseFunctionCall_sound inner fuel _ _ _) fun _ => Sound.some trivial
  · exact Yields.after fun _ => Sound.none

theorem parseUnaryExpr_sound (inner : Sound expression) (fuel : Nat) :
    Sound (parseUnaryExpr expression fuel) := by
  induction fuel with
  | zero => exact Yields.outOfFuel
  | succ fuel ih =>
    refine yields_ahead (fun op listed => ?_) fun _ _ => parsePrimaryExpr_sound inner (fuel + 1)
    have known : isUnaryOperator op.type = true := by
      rcases List.mem_pair.mp listed with minus | bang
      · rw [minus]
        rfl
      · rw [bang]
        rfl
    refine Yields.bind ih fun operand parsed => Yields.after fun error => ?_
    cases operand with
    | none => exact Sound.none
    | some operand =>
      exact Yields.ite (fun _ => Sound.none) fun _ => Sound.some ⟨known, parsed operand rfl⟩

end Levels

/-- Every expression the parser makes is of the grammar. The induction is
on the depth of parentheses. -/
theorem parseExpression_sound (fuel : Nat) : Sound (parseExpression fuel) := by
  induction fuel with
  | zero => exact Yields.outOfFuel
  | succ fuel ih =>
    have multiplicative := parseLevel_sound (@checked_knows [.star, .slash, .percent] (by decide))
      (parseUnaryExpr_sound ih (fuel + 1)) (fuel + 1)
    have additive :=
      parseLevel_sound (@checked_knows [.plus, .minus] (by decide)) multiplicative (fuel + 1)
    have comparison := parseLevel_sound
      (@checked_knows [.less, .lessEqual, .greater, .greaterEqual] (by decide)) additive (fuel + 1)
    have equality :=
      parseLevel_sound (@checked_knows [.equal, .notEqual] (by decide)) comparison (fuel + 1)
    have bitwiseAnd := parseLevel_sound (@matched_knows .amp rfl) equality (fuel + 1)
    have bitwiseXor := parseLevel_sound (@matched_knows .caret rfl) bitwiseAnd (fuel + 1)
    have bitwiseOr := parseLevel_sound (@matched_knows .pipe rfl) bitwiseXor (fuel + 1)
    have conjunction := parseLevel_sound (@matched_knows .and rfl) bitwiseOr (fuel + 1)
    exact parseLevel_sound (@matched_knows .or rfl) conjunction (fuel + 1)

structure ParsedStmt (query : QueryStmt) : Prop where
  projections : ∀ item ∈ query.projections, ∀ e, item.expr = some e → Parsed e
  whereExpr : ∀ e, query.whereExpr = some e → Parsed e
  letBindings : ∀ binding ∈ query.letBindings, ∀ e, binding.2 = some e → Parsed e
  tumbleWindow : ∀ e, query.tumbleWindow = some e → Parsed e
  aggregations : ∀ aggregation ∈ query.aggregations, Parsed aggregation.2

section Clauses

variable {query : QueryStmt} (parsed : ParsedStmt query) (fuel : Nat)

theorem parseProjections_parsed (bare : Bool) (fuel : Nat) {items : List SelectItem}
    (parsed : ∀ item ∈ items, ∀ e, item.expr = some e → Parsed e) :
    Yields (parseProjections bare fuel items) fun all => ∀ item ∈ all, ∀ e, item.expr = some e →
      Parsed e := by
  induction fuel generalizing items with
  | zero => exact Yields.outOfFuel
  | succ fuel ih =>
    have snoc : ∀ item : SelectItem, (∀ e, item.expr = some e → Parsed e) →
        ∀ other ∈ items ++ [item], ∀ e, other.expr = some e → Parsed e := by
      intro item new other listed
      rcases List.mem_append.mp listed with old | last
      · exact parsed other old
      · exact List.mem_singleton.mp last ▸ new
    refine Yields.after fun star => Yields.ite (fun _ => ?_) fun _ => ?_
    · have more := snoc ⟨none, Vts1.nameBytes "*", true⟩ fun e none => (nomatch none)
      exact Yields.after fun goesOn => Yields.ite (fun _ => ih more) fun _ => Yields.pure more
    · refine Yields.bind (parseExpression_sound fuel) fun expr new => Yields.after fun error => ?_
      refine Yields.ite (fun _ => Yields.pure parsed) fun _ => Yields.after fun alias_ =>
        Yields.after fun broken => ?_
      refine Yields.ite (fun _ => Yields.pure parsed) fun _ => Yields.after fun goesOn => ?_
      have more := snoc ⟨expr, alias_, false⟩ new
      exact Yields.ite (fun _ => ih more) fun _ => Yields.pure more

theorem parseAggregation_parsed (fuel : Nat) :
    Yields (parseAggregation fuel) fun found => ∀ aggregation, found = some aggregation →
      Parsed aggregation.2 := by
  have nothing : Yields (pure none : Parse (Option (Bytes × Expression)))
      fun found => ∀ aggregation, found = some aggregation → Parsed aggregation.2 :=
    Yields.pure fun _ none => (nomatch none)
  have argument : Sound (parseAggregationArgument fuel) := by
    refine Yields.after fun star => Yields.ite (fun _ => Sound.none) fun _ =>
      Yields.after fun empty => ?_
    exact Yields.ite (fun _ => Sound.none) fun _ => parseExpression_sound fuel
  refine Yields.after fun ahead => Yields.ite (fun _ => ?_) fun _ => Yields.after fun _ => nothing
  refine Yields.after fun name => Yields.after fun opens => Yields.ite (fun _ => ?_) fun _ =>
    Yields.after fun _ => nothing
  refine Yields.bind argument fun arg new => Yields.after fun error =>
    Yields.ite (fun _ => nothing) fun _ => ?_
  refine Yields.after fun closed => Yields.ite (fun _ => Yields.pure ?_) fun _ =>
    Yields.after fun _ => nothing
  intro aggregation same
  cases same
  cases arg with
  | none => exact trivial
  | some arg => exact ⟨new arg rfl, trivial⟩

theorem parseAggregations_parsed (fuel : Nat) {aggregations : List (Bytes × Expression)}
    (parsed : ∀ aggregation ∈ aggregations, Parsed aggregation.2) :
    Yields (parseAggregations fuel aggregations) fun all => ∀ aggregation ∈ all,
      Parsed aggregation.2 := by
  induction fuel generalizing aggregations with
  | zero => exact Yields.outOfFuel
  | succ fuel ih =>
    refine Yields.bind (parseAggregation_parsed fuel) fun found new => ?_
    cases found with
    | none => exact Yields.pure parsed
    | some aggregation =>
      have more : ∀ other ∈ aggregations ++ [aggregation], Parsed other.2 := by
        intro other listed
        rcases List.mem_append.mp listed with old | last
        · exact parsed other old
        · exact List.mem_singleton.mp last ▸ new aggregation rfl
      exact Yields.after fun goesOn => Yields.ite (fun _ => ih more) fun _ => Yields.pure more

include parsed

theorem parseLet_parsed : Yields (parseLet fuel query) ParsedStmt := by
  refine Yields.after fun _ => Yields.after fun name => Yields.after fun broken =>
    Yields.ite (fun _ => Yields.pure parsed) fun _ => ?_
  refine Yields.after fun equal => Yields.ite (fun _ => ?_) fun _ =>
    Yields.after fun _ => Yields.pure parsed
  refine Yields.bind (parseExpression_sound fuel) fun expr new => Yields.after fun error => ?_
  refine Yields.ite (fun _ => Yields.pure parsed) fun _ =>
    Yields.pure { parsed with letBindings := fun binding listed => ?_ }
  rcases List.mem_append.mp listed with old | last
  · exact parsed.letBindings binding old
  · rw [List.mem_singleton.mp last]
    exact new

theorem parseTumble_parsed : Yields (parseTumble fuel query) ParsedStmt := by
  refine Yields.after fun opens => Yields.ite (fun _ => ?_) fun _ =>
    Yields.after fun _ => Yields.pure parsed
  refine Yields.bind (parseExpression_sound fuel) fun expr new => Yields.after fun error => ?_
  have more : ParsedStmt { query with tumbleWindow := expr } := { parsed with tumbleWindow := new }
  refine Yields.ite (fun _ => Yields.pure more) fun _ => Yields.after fun closed => ?_
  exact Yields.ite (fun _ => Yields.pure more) fun _ => Yields.after fun _ => Yields.pure more

theorem parseGroup_parsed : Yields (parseGroup fuel query) ParsedStmt := by
  refine Yields.after fun _ => Yields.after fun by_ => Yields.ite (fun _ => ?_) fun _ =>
    Yields.after fun _ => Yields.pure parsed
  refine Yields.after fun columns => Yields.after fun window => ?_
  have more : ParsedStmt { query with groupByColumns := columns } := { parsed with }
  exact Yields.ite (fun _ => parseTumble_parsed more fuel) fun _ => Yields.pure more

/-- Every clause keeps the expressions of the statement and adds parsed ones. -/
theorem parseClause_parsed (type : TokenType) :
    Yields (parseClause fuel type query) ParsedStmt := by
  have unexpected : Yields (do errorHere "Unexpected token in query"; return query) ParsedStmt :=
    Yields.after fun _ => Yields.pure parsed
  unfold parseClause
  cases type
  case select =>
    exact Yields.after fun _ =>
      Yields.bind (parseProjections_parsed false fuel parsed.projections) fun all new =>
      Yields.pure { parsed with projections := new }
  case where_ =>
    exact Yields.after fun _ => Yields.bind (parseExpression_sound fuel) fun expr new =>
      Yields.pure { parsed with whereExpr := new }
  case let_ => exact parseLet_parsed parsed fuel
  case group => exact parseGroup_parsed parsed fuel
  case agg =>
    exact Yields.after fun _ =>
      Yields.bind (parseAggregations_parsed fuel parsed.aggregations) fun all new =>
      Yields.pure { parsed with aggregations := new }
  case order =>
    refine Yields.after fun _ => Yields.after fun by_ => Yields.ite (fun _ => ?_) fun _ =>
      Yields.after fun _ => Yields.pure parsed
    exact Yields.after fun columns => Yields.pure { parsed with }
  case limit =>
    refine Yields.after fun _ => Yields.after fun value => Yields.after fun broken => ?_
    exact Yields.ite (fun _ => Yields.pure parsed) fun _ => Yields.pure { parsed with }
  all_goals exact unexpected

theorem parseClauses_parsed : Yields (parseClauses fuel query) ParsedStmt := by
  induction fuel generalizing query with
  | zero => exact Yields.outOfFuel
  | succ fuel ih =>
    refine Yields.after fun token => Yields.after fun error =>
      Yields.ite (fun _ => Yields.pure parsed) fun _ => ?_
    exact Yields.bind (parseClause_parsed parsed fuel token.type) fun next more => ih more

theorem finish_parsed : Yields (finish query) fun outcome => ∀ stmt, outcome = .ok stmt →
    ParsedStmt stmt := by
  intro parser outcome after run stmt same
  cases run
  by_cases error : parser.hasError = true
  · rw [if_pos error] at same
    cases same
  · rw [if_neg error] at same
    cases same
    exact parsed

theorem parseFrom_parsed : Yields (parseFrom fuel query) fun outcome => ∀ stmt, outcome = .ok stmt →
    ParsedStmt stmt := by
  refine Yields.after fun table => Yields.after fun broken =>
    Yields.ite (fun _ => finish_parsed parsed) fun _ => ?_
  have named : ParsedStmt { query with tableName := table.text } := { parsed with }
  exact Yields.bind (parseClauses_parsed named fuel) fun _ more => finish_parsed more

end Clauses

theorem parseQuery_parsed (fuel : Nat) :
    Yields (parseQuery fuel) fun outcome => ∀ stmt, outcome = .ok stmt → ParsedStmt stmt := by
  refine Yields.after fun token => Yields.after fun select => ?_
  have empty : ParsedStmt ⟨[], [], none, [], [], none, [], [], 0, token.line, token.column⟩ := {
    projections := fun _ listed => (nomatch listed)
    whereExpr := fun _ none => (nomatch none)
    letBindings := fun _ listed => (nomatch listed)
    tumbleWindow := fun _ none => (nomatch none)
    aggregations := fun _ listed => (nomatch listed) }
  refine Yields.ite (fun _ => ?_) fun _ => Yields.after fun from_ =>
    Yields.ite (fun _ => parseFrom_parsed empty fuel) fun _ => ?_
  · refine Yields.bind (parseProjections_parsed true fuel fun _ listed => (nomatch listed))
      fun items new => ?_
    have more : ParsedStmt ⟨items, [], none, [], [], none, [], [], 0, token.line, token.column⟩ :=
      { empty with projections := new }
    refine Yields.after fun broken => Yields.ite (fun _ => finish_parsed more) fun _ =>
      Yields.after fun from_ => ?_
    refine Yields.ite (fun _ => parseFrom_parsed more fuel) fun _ => ?_
    have named : ParsedStmt ⟨items, Vts1.nameBytes "events", none, [], [], none, [], [], 0,
        token.line, token.column⟩ :=
      { more with }
    exact Yields.bind (parseClauses_parsed named fuel) fun _ last => finish_parsed last
  · exact Yields.after fun _ => finish_parsed empty

/-- Every expression in an accepted statement is of the grammar. -/
theorem parse_parsed {fuel : Nat} {text : Bytes} {stmt : QueryStmt}
    (accepted : parse fuel text = some (.ok stmt)) :
    ParsedStmt stmt := by
  unfold parse at accepted
  cases run : parseQuery fuel (ofText text) with
  | none =>
    rw [run] at accepted
    cases accepted
  | some outcome =>
    rw [run] at accepted
    cases outcome with
    | error stop => cases accepted
    | ok reached =>
      exact parseQuery_parsed fuel _ reached.1 reached.2 run stmt (Option.some.inj accepted)

/-- What a query text is accepted as has a property, checked by running the parser. -/
theorem accepted_of_test {parserFuel : Nat} {text : Bytes} {test : QueryStmt → Bool}
    (tested : (match parse parserFuel text with | some (.ok stmt) => test stmt | _ => false) =
      true) :
    ∃ stmt, parse parserFuel text = some (.ok stmt) ∧ test stmt = true := by
  generalize parse parserFuel text = outcome at tested ⊢
  rcases outcome with _ | stop | stmt
  · cases tested
  · cases tested
  · exact ⟨stmt, rfl, tested⟩

end Parser

end VectorTick.Query
