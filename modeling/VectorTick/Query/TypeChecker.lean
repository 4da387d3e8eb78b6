import VectorTick.Query.Ast

/-! The type checker: names of columns, types of expressions, and the check of a statement. -/

set_option autoImplicit false

namespace VectorTick.Query

open Foundation Vts1

def textOf (text : Bytes) : String := String.ofList (text.map fun c => Char.ofNat c.toNat)

/-- The type of a truth value, which no column has. -/
def boolType : ColumnType := ⟨8⟩

namespace TypeChecker

/-- The names that stand for a column, in any case of letters. -/
def columnNames : List (ColumnID × List String) :=
  [ (.exchangeTsNs, ["exchange_ts_ns", "exchange_ts"]),
    (.receiveTsNs, ["receive_ts_ns", "receive_ts"]),
    (.sequence, ["sequence", "seq"]),
    (.instrumentId, ["instrument_id", "symbol", "instrument"]),
    (.eventType, ["event_type"]),
    (.side, ["side"]),
    (.flags, ["flags"]),
    (.priceTicks, ["price_ticks", "price"]),
    (.quantity, ["quantity", "qty"]),
    (.venueId, ["venue_id", "venue"]),
    (.sourceId, ["source_id", "source"]),
    (.tradeOrOrderId, ["trade_or_order_id", "trade_id", "order_id"]) ]

def resolveColumn (name : Bytes) : Option ColumnID :=
  (columnNames.find? fun entry => entry.2.any fun spelling =>
    iequals name (nameBytes spelling)).map Prod.fst

/-- The type of a binary operation on operands of the given types. -/
def binaryType (op : TokenType) (left right : ColumnType) : ColumnType :=
  match op with
  | .equal | .notEqual | .less | .lessEqual | .greater | .greaterEqual | .and | .or => boolType
  | _ => if left = .i64 ∨ right = .i64 then .i64 else .u64

def unaryType (op : TokenType) (operand : ColumnType) : ColumnType :=
  if op = .bang then boolType else if op = .minus then .i64 else operand

def callType (name : Bytes) (args : List ColumnType) : ColumnType :=
  if iequals name (nameBytes "sum") ∨ iequals name (nameBytes "min") ∨
    iequals name (nameBytes "max") then args.headD .u64
  else .u64

mutual

def checkExpression : Expression → Except Stop ColumnType
  | .literal _ _ _ => .ok .u64
  | .columnRef name _ _ =>
    match resolveColumn name with
    | none => failWith .invalidArgument ("Unknown column reference: " ++ textOf name)
    | some column => .ok (getColumnType column)
  | .binaryOp op left right _ _ => do
    let leftType ← checkExpression left
    let rightType ← checkExpression right
    return binaryType op leftType rightType
  | .unaryOp op operand _ _ => do
    let operandType ← checkExpression operand
    return unaryType op operandType
  | .functionCall name args _ _ => do
    let argTypes ← checkArguments args
    return callType name argTypes

def checkArguments : List Expression → Except Stop (List ColumnType)
  | [] => .ok []
  | arg :: rest => do
    let type ← checkExpression arg
    let types ← checkArguments rest
    return type :: types

end

def checkProjections : List SelectItem → Except Stop Unit
  | [] => .ok ()
  | item :: rest => do
    if !item.isWildcard then
      match item.expr with
      | none => pure ()
      | some expr => let _ ← checkExpression expr
    checkProjections rest

def checkColumns (message : String) : List Bytes → Except Stop Unit
  | [] => .ok ()
  | name :: rest => do
    if (resolveColumn name).isNone then
      failWith .invalidArgument (message ++ textOf name)
    checkColumns message rest

def checkQuery (stmt : QueryStmt) : Except Stop Unit := do
  checkProjections stmt.projections
  match stmt.whereExpr with
  | none => pure ()
  | some expr => let _ ← checkExpression expr
  checkColumns "Unknown GROUP BY column: " stmt.groupByColumns
  checkColumns "Unknown ORDER BY column: " (stmt.orderBy.map Prod.fst)

end TypeChecker

end VectorTick.Query
