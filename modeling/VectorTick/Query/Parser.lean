import VectorTick.Query.Lexer

/-! The parser: recursive descent over the tokens of the lexer, one token ahead.

An error is kept in the parser and the first one stays; a null pointer is returned along with it.
Each level of the grammar takes the level below as an argument, and the expression in parentheses
comes in with less fuel than the expression around it. -/

set_option autoImplicit false

namespace VectorTick.Query

open Foundation Vts1

def tokenTypeName : TokenType → String
  | .eof => "EOF"
  | .integerLiteral => "IntegerLiteral"
  | .identifier => "Identifier"
  | .select => "SELECT"
  | .from_ => "FROM"
  | .where_ => "WHERE"
  | .let_ => "LET"
  | .group => "GROUP"
  | .by_ => "BY"
  | .agg => "AGG"
  | .order => "ORDER"
  | .limit => "LIMIT"
  | .and => "AND"
  | .or => "OR"
  | .not => "NOT"
  | .true_ => "TRUE"
  | .false_ => "FALSE"
  | .tumble => "TUMBLE"
  | .as_ => "AS"
  | .asc => "ASC"
  | .desc => "DESC"
  | .count => "COUNT"
  | .sum => "SUM"
  | .min => "MIN"
  | .max => "MAX"
  | .avg => "AVG"
  | .plus => "+"
  | .minus => "-"
  | .star => "*"
  | .slash => "/"
  | .percent => "%"
  | .equal => "=="
  | .notEqual => "!="
  | .less => "<"
  | .lessEqual => "<="
  | .greater => ">"
  | .greaterEqual => ">="
  | .ampAmp => "&&"
  | .pipePipe => "||"
  | .bang => "!"
  | .amp => "&"
  | .pipe => "|"
  | .caret => "^"
  | .lParen => "("
  | .rParen => ")"
  | .comma => ","
  | .semicolon => ";"
  | .error => "Error"

structure Parser where
  lexer : Lexer
  hasError : Bool := false
  errorMsg : String := ""
  errorLine : Nat := 0
  errorColumn : Nat := 0
  deriving DecidableEq, Repr

/-- A step of the parser: no outcome where the fuel does not last, and a
stop where the lexer throws. -/
def Parse (α : Type) : Type := Parser → Option (Except Stop (α × Parser))

namespace Parse

def pure {α : Type} (value : α) : Parse α := fun parser => some (.ok (value, parser))

def bind {α β : Type} (first : Parse α) (next : α → Parse β) : Parse β := fun parser =>
  match first parser with
  | none => none
  | some (.error stop) => some (.error stop)
  | some (.ok (value, parser)) => next value parser

instance : Monad Parse where
  pure := Parse.pure
  bind := Parse.bind

def outOfFuel {α : Type} : Parse α := fun _ => none

def lexing {α : Type} (step : Lexer → Except Stop (α × Lexer)) : Parse α := fun parser =>
  match step parser.lexer with
  | .error stop => some (.error stop)
  | .ok (value, lexer) => some (.ok (value, { parser with lexer }))

end Parse

namespace Parser

def currentToken : Parse Token := Parse.lexing Lexer.peekToken

def advance : Parse Token := Parse.lexing Lexer.nextToken

def failed : Parse Bool := fun parser => some (.ok (parser.hasError, parser))

def setError (msg : String) (line column : Nat) : Parse Unit := fun parser =>
  some (.ok ((), if parser.hasError then parser
    else { parser with
      hasError := true, errorMsg := msg, errorLine := line, errorColumn := column }))

def errorHere (msg : String) : Parse Unit := do
  let token ← currentToken
  setError msg token.line token.column

def check (type : TokenType) : Parse Bool := do
  let token ← currentToken
  return token.type = type

/-- `match` -/
def accept (type : TokenType) : Parse Bool := do
  if ← check type then
    let _ ← advance
    return true
  else return false

def expect (type : TokenType) (msg : String) : Parse Token := do
  if ← check type then advance
  else do
    let token ← currentToken
    setError (msg ++ ", got " ++ tokenTypeName token.type) token.line token.column
    return token

/-- The condition that goes on with a list: a comma was taken, and there is no error. -/
def another : Parse Bool := do
  if ← accept .comma then
    let error ← failed
    return !error
  else return false

/-- A level of binary operators: the operator if one is ahead, with the position of the node. -/
abbrev Operator := Parse (Option (TokenType × Nat × Nat))

/-- `match(type)`, and the position of the token behind. -/
def matched (type : TokenType) : Operator := do
  if ← accept type then
    let token ← currentToken
    return some (type, token.line, token.column)
  else return none

/-- `check` for each of the types, and the position of the operator itself. -/
def checked (types : List TokenType) : Operator := do
  let token ← currentToken
  if token.type ∈ types then
    let op ← advance
    return some (op.type, op.line, op.column)
  else return none

/-- The loop of a level: the operand on the right is joined to what is on the left. -/
def joinLeft (operator : Operator) (operand : Parse (Option Expression)) : Nat → Expression →
    Parse (Option Expression)
  | 0, _ => .outOfFuel
  | fuel + 1, left => do
    match ← operator with
    | none => return some left
    | some (op, line, column) =>
      let right ← operand
      let error ← failed
      match right with
      | none => return none
      | some right => if error then
          return none else joinLeft operator operand fuel (.binaryOp op left right line column)

def parseLevel (operator : Operator) (operand : Parse (Option Expression)) (fuel : Nat) :
    Parse (Option Expression) := do
  let left ← operand
  let error ← failed
  match left with
  | none => return none
  | some left => if error then return some left else joinLeft operator operand fuel left

/-- A list of arguments, from one that has to be there. -/
def parseArguments (expression : Parse (Option Expression)) : Nat → List Expression →
    Parse (Option (List Expression))
  | 0, _ => .outOfFuel
  | fuel + 1, args => do
    let arg ← expression
    let error ← failed
    match arg with
    | none => return none
    | some arg =>
      if error then return none
      else if ← another then parseArguments expression fuel (args ++ [arg])
      else return some (args ++ [arg])

/-- The arguments of a call: none, or the wildcard, or a list. -/
def parseCallArguments (expression : Parse (Option Expression)) (fuel : Nat) :
    Parse (Option (List Expression)) := do
  if ← accept .star then return some []
  else if ← check .rParen then return some []
  else parseArguments expression fuel []

def parseFunctionCall (expression : Parse (Option Expression)) (fuel : Nat)
    (name : Bytes) (line column : Nat) :
    Parse (Option Expression) := do
  let _ ← advance
  match ← parseCallArguments expression fuel with
  | none => return none
  | some args =>
    if ← accept .rParen then return some (.functionCall name args line column)
    else do
      errorHere "Expected ')' after function arguments"
      return none

/-- A name: the name of a call if there is a parenthesis behind it, else of a column. -/
def parseName (expression : Parse (Option Expression)) (fuel : Nat) :
    Parse (Option Expression) := do
  let name ← advance
  if ← check .lParen then parseFunctionCall expression fuel name.text name.line name.column
  else return some (.columnRef name.text name.line name.column)

def parsePrimaryExpr (expression : Parse (Option Expression)) (fuel : Nat) :
    Parse (Option Expression) := do
  let token ← currentToken
  if ← accept .integerLiteral then return some (.literal token.intValue token.line token.column)
  else if ← accept .true_ then return some (.literal 1 token.line token.column)
  else if ← accept .false_ then return some (.literal 0 token.line token.column)
  else if ← accept .lParen then
    let expr ← expression
    let error ← failed
    match expr with
    | none => return none
    | some expr =>
      if error then return none
      else if ← accept .rParen then return some expr
      else do
        errorHere "Expected ')' after expression"
        return none
  else do
    -- The aggregates are keywords, and names like any other.
    let ahead ← currentToken
    if ahead.type ∈ [.count, .sum, .min, .max, .avg, .identifier] then parseName expression fuel
    else do
      setError "Expected expression" token.line token.column
      return none

def parseUnaryExpr (expression : Parse (Option Expression)) : Nat → Parse (Option Expression)
  | 0 => .outOfFuel
  | fuel + 1 => do
    let token ← currentToken
    if token.type ∈ [.minus, .bang] then
      let op ← advance
      let operand ← parseUnaryExpr expression fuel
      let error ← failed
      match operand with
      | none => return none
      | some operand =>
        if error then return none else return some (.unaryOp op.type operand op.line op.column)
    else parsePrimaryExpr expression (fuel + 1)

section Levels

variable (expression : Parse (Option Expression)) (fuel : Nat)

def parseMultiplicativeExpr : Parse (Option Expression) :=
  parseLevel (checked [.star, .slash, .percent]) (parseUnaryExpr expression fuel) fuel

def parseAdditiveExpr : Parse (Option Expression) :=
  parseLevel (checked [.plus, .minus]) (parseMultiplicativeExpr expression fuel) fuel

def parseComparisonExpr : Parse (Option Expression) :=
  parseLevel (checked [.less, .lessEqual, .greater, .greaterEqual])
    (parseAdditiveExpr expression fuel) fuel

def parseEqualityExpr : Parse (Option Expression) :=
  parseLevel (checked [.equal, .notEqual]) (parseComparisonExpr expression fuel) fuel

def parseBitwiseAndExpr : Parse (Option Expression) :=
  parseLevel (matched .amp) (parseEqualityExpr expression fuel) fuel

def parseBitwiseXorExpr : Parse (Option Expression) :=
  parseLevel (matched .caret) (parseBitwiseAndExpr expression fuel) fuel

def parseBitwiseOrExpr : Parse (Option Expression) :=
  parseLevel (matched .pipe) (parseBitwiseXorExpr expression fuel) fuel

def parseAndExpr : Parse (Option Expression) :=
  parseLevel (matched .and) (parseBitwiseOrExpr expression fuel) fuel

def parseOrExpr : Parse (Option Expression) :=
  parseLevel (matched .or) (parseAndExpr expression fuel) fuel

end Levels

def parseExpression : Nat → Parse (Option Expression)
  | 0 => .outOfFuel
  | fuel + 1 => parseOrExpr (parseExpression fuel) (fuel + 1)

-- A clause that breaks off has set the error, and with an error the loop over the clauses ends.

/-- The name behind `AS`, or, at the beginning of a query only, behind nothing. -/
def parseAlias (bare : Bool) : Parse Bytes := do
  if ← accept .as_ then
    let alias_ ← expect .identifier "Expected alias after AS"
    return alias_.text
  else if bare then
    if ← check .identifier then
      let alias_ ← advance
      return alias_.text
    else return []
  else return []

def parseProjections (bare : Bool) : Nat → List SelectItem → Parse (List SelectItem)
  | 0, _ => .outOfFuel
  | fuel + 1, items => do
    if ← accept .star then
      let items := items ++ [⟨none, nameBytes "*", true⟩]
      if ← another then parseProjections bare fuel items else return items
    else do
      let expr ← parseExpression fuel
      let error ← failed
      if expr.isNone || error then return items
      else do
        let alias_ ← parseAlias bare
        if ← failed then return items
        else do
          let items := items ++ [⟨expr, alias_, false⟩]
          if ← another then parseProjections bare fuel items else return items

def parseSelect (fuel : Nat) (query : QueryStmt) : Parse QueryStmt := do
  let _ ← advance
  let projections ← parseProjections false fuel query.projections
  return { query with projections }

def parseWhere (fuel : Nat) (query : QueryStmt) : Parse QueryStmt := do
  let _ ← advance
  let whereExpr ← parseExpression fuel
  return { query with whereExpr }

def parseLet (fuel : Nat) (query : QueryStmt) : Parse QueryStmt := do
  let _ ← advance
  let name ← expect .identifier "Expected variable name"
  if ← failed then return query
  else if ← accept .equal then
    let expr ← parseExpression fuel
    if ← failed then return query
    else return { query with letBindings := query.letBindings ++ [(name.text, expr)] }
  else do
    errorHere "Expected '=' after variable name"
    return query

def parseGroupColumns : Nat → List Bytes → Parse (List Bytes)
  | 0, _ => .outOfFuel
  | fuel + 1, columns => do
    let column ← expect .identifier "Expected column name"
    if ← failed then return columns
    else if ← another then parseGroupColumns fuel (columns ++ [column.text])
    else return columns ++ [column.text]

def parseTumble (fuel : Nat) (query : QueryStmt) : Parse QueryStmt := do
  if ← accept .lParen then
    let tumbleWindow ← parseExpression fuel
    let query := { query with tumbleWindow }
    if ← failed then return query
    else if ← accept .rParen then return query
    else do
      errorHere "Expected ')' after TUMBLE expression"
      return query
  else do
    errorHere "Expected '(' after TUMBLE"
    return query

def parseGroup (fuel : Nat) (query : QueryStmt) : Parse QueryStmt := do
  let _ ← advance
  if ← accept .by_ then
    let groupByColumns ← parseGroupColumns fuel query.groupByColumns
    let query := { query with groupByColumns }
    if ← accept .tumble then parseTumble fuel query else return query
  else do
    errorHere "Expected BY after GROUP"
    return query

def parseAggregationArgument (fuel : Nat) : Parse (Option Expression) := do
  if ← accept .star then return none
  else if ← check .rParen then return none
  else parseExpression fuel

def parseAggregation (fuel : Nat) : Parse (Option (Bytes × Expression)) := do
  let ahead ← currentToken
  if ahead.type ∈ [.identifier, .count, .sum, .min, .max, .avg] then
    let name ← advance
    if ← accept .lParen then
      let arg ← parseAggregationArgument fuel
      if ← failed then return none
      else if ← accept .rParen then
        return some (name.text, .functionCall name.text arg.toList name.line name.column)
      else do
        errorHere "Expected ')' after aggregation arguments"
        return none
    else do
      errorHere "Expected '(' after aggregation function"
      return none
  else do
    errorHere "Expected aggregation function"
    return none

def parseAggregations : Nat → List (Bytes × Expression) → Parse (List (Bytes × Expression))
  | 0, _ => .outOfFuel
  | fuel + 1, aggregations => do
    match ← parseAggregation fuel with
    | none => return aggregations
    | some aggregation =>
      if ← another then parseAggregations fuel (aggregations ++ [aggregation])
      else return aggregations ++ [aggregation]

def parseAgg (fuel : Nat) (query : QueryStmt) : Parse QueryStmt := do
  let _ ← advance
  let aggregations ← parseAggregations fuel query.aggregations
  return { query with aggregations }

/-- The direction behind a column: the keywords, or the words themselves where they come as names.
-/
def parseAscending : Parse Bool := do
  if ← accept .asc then return true
  else if ← accept .desc then return false
  else if ← check .identifier then
    let dir ← currentToken
    if dir.text = nameBytes "ASC" ∨ dir.text = nameBytes "asc" then
      let _ ← advance
      return true
    else if dir.text = nameBytes "DESC" ∨ dir.text = nameBytes "desc" then
      let _ ← advance
      return false
    else return true
  else return true

def parseOrderColumns : Nat → List (Bytes × Bool) → Parse (List (Bytes × Bool))
  | 0, _ => .outOfFuel
  | fuel + 1, columns => do
    let column ← expect .identifier "Expected column name"
    if ← failed then return columns
    else do
      let ascending ← parseAscending
      let columns := columns ++ [(column.text, ascending)]
      if ← another then parseOrderColumns fuel columns else return columns

def parseOrder (fuel : Nat) (query : QueryStmt) : Parse QueryStmt := do
  let _ ← advance
  if ← accept .by_ then
    let orderBy ← parseOrderColumns fuel query.orderBy
    return { query with orderBy }
  else do
    errorHere "Expected BY after ORDER"
    return query

def parseLimit (query : QueryStmt) : Parse QueryStmt := do
  let _ ← advance
  let limit ← expect .integerLiteral "Expected limit value"
  if ← failed then return query else return { query with limit := limit.intValue }

def parseClause (fuel : Nat) (type : TokenType) (query : QueryStmt) : Parse QueryStmt :=
  match type with
  | .select => parseSelect fuel query
  | .where_ => parseWhere fuel query
  | .let_ => parseLet fuel query
  | .group => parseGroup fuel query
  | .agg => parseAgg fuel query
  | .order => parseOrder fuel query
  | .limit => parseLimit query
  | _ => do
    errorHere "Unexpected token in query"
    return query

def parseClauses : Nat → QueryStmt → Parse QueryStmt
  | 0, _ => .outOfFuel
  | fuel + 1, query => do
    let token ← currentToken
    let error ← failed
    if token.type = .eof ∨ error = true then return query
    else do
      let query ← parseClause fuel token.type query
      parseClauses fuel query

/-- The query, or the error there has been. -/
def finish (query : QueryStmt) : Parse (Except Stop QueryStmt) := fun parser =>
  some (.ok (if parser.hasError then failWith .parserError parser.errorMsg else .ok query, parser))

/-- The clauses of a query on a table that has to be named. -/
def parseFrom (fuel : Nat) (query : QueryStmt) : Parse (Except Stop QueryStmt) := do
  let table ← expect .identifier "Expected table name"
  if ← failed then finish query
  else do
    let query ← parseClauses fuel { query with tableName := table.text }
    finish query

def parseQuery (fuel : Nat) : Parse (Except Stop QueryStmt) := do
  let token ← currentToken
  let query : QueryStmt := ⟨[], [], none, [], [], none, [], [], 0, token.line, token.column⟩
  if ← accept .select then
    let projections ← parseProjections true fuel []
    let query := { query with projections }
    if ← failed then finish query
    else if ← accept .from_ then parseFrom fuel query
    else do
      let query ← parseClauses fuel { query with tableName := nameBytes "events" }
      finish query
  else if ← accept .from_ then parseFrom fuel query
  else do
    setError "Expected SELECT or FROM" token.line token.column
    finish query

def ofText (text : Bytes) : Parser := { lexer := { input := text } }

/-- A parser over the text, and its `parse_query`. -/
def parse (fuel : Nat) (text : Bytes) : Option (Except Stop QueryStmt) :=
  match parseQuery fuel (ofText text) with
  | none => none
  | some (.error stop) => some (.error stop)
  | some (.ok (outcome, _)) => some outcome

end Parser

end VectorTick.Query
