import VectorTick.Ir.Instruction
import VectorTick.Query.TypeChecker

/-! The builder: lowering of expressions and of whole statements.

The builder keeps the function it fills and the block it appends to.
-/

set_option autoImplicit false

namespace VectorTick.Ir

open Foundation Vts1 Query

structure Builder where
  function : Function
  currentBlock : Nat

namespace Builder

abbrev Build := StateM Builder

def createBlock : Build Nat := fun builder =>
  let id := builder.function.blocks.length
  (id, { builder with function := {
    builder.function with blocks := builder.function.blocks ++ [⟨[]⟩] } })

def createValue : Build ValueId := fun builder =>
  (builder.function.nextValueId,
    { builder with function := {
      builder.function with nextValueId := builder.function.nextValueId + 1 } })

def append (instruction : Instruction) : Build Unit := fun builder =>
  ((), { builder with function := { builder.function with
    blocks := builder.function.blocks.modify builder.currentBlock fun block =>
      ⟨block.instructions ++ [instruction]⟩ } })

/-- What all `create_*` functions do: a fresh id for the result, and the
instruction that defines it. -/
def define (instruction : ValueId → Instruction) : Build ValueId := do
  let result ← createValue
  append (instruction result)
  return result

def createConstU64 (value : UInt64) : Build ValueId := define (.constOp (.u64 value))

/-- The signed opcode for `i64`, the unsigned one for every other type. -/
def byType (type : IrType) (signed unsigned : Opcode) : Opcode :=
  if type = .i64 then signed else unsigned

def createAdd (lhs rhs : ValueId) (type : IrType) : Build ValueId :=
  define (.binaryOp (byType type .addI64 .addU64) lhs rhs · type)

def createSub (lhs rhs : ValueId) (type : IrType) : Build ValueId :=
  define (.binaryOp (byType type .subI64 .subU64) lhs rhs · type)

def createMul (lhs rhs : ValueId) (type : IrType) : Build ValueId :=
  define (.binaryOp (byType type .mulI64 .mulU64) lhs rhs · type)

def createDiv (lhs rhs : ValueId) (type : IrType) : Build ValueId :=
  define (.binaryOp (byType type .divI64 .divU64) lhs rhs · type)

def createMod (lhs rhs : ValueId) (type : IrType) : Build ValueId :=
  define (.binaryOp (byType type .modI64 .modU64) lhs rhs · type)

def createNeg (operand : ValueId) (type : IrType) : Build ValueId :=
  define (.unaryOp .negI64 operand · type)

def createEq (lhs rhs : ValueId) (type : IrType) : Build ValueId :=
  define (.compareOp (byType type .eqI64 .eqU64) lhs rhs)

def createNe (lhs rhs : ValueId) (type : IrType) : Build ValueId :=
  define (.compareOp (byType type .neI64 .neU64) lhs rhs)

def createLt (lhs rhs : ValueId) (type : IrType) : Build ValueId :=
  define (.compareOp (byType type .ltI64 .ltU64) lhs rhs)

def createLe (lhs rhs : ValueId) (type : IrType) : Build ValueId :=
  define (.compareOp (byType type .leI64 .leU64) lhs rhs)

def createGt (lhs rhs : ValueId) (type : IrType) : Build ValueId :=
  define (.compareOp (byType type .gtI64 .gtU64) lhs rhs)

def createGe (lhs rhs : ValueId) (type : IrType) : Build ValueId :=
  define (.compareOp (byType type .geI64 .geU64) lhs rhs)

def createAnd (lhs rhs : ValueId) : Build ValueId := define (.binaryOp .and lhs rhs · .i1)

def createOr (lhs rhs : ValueId) : Build ValueId := define (.binaryOp .or lhs rhs · .i1)

def createNot (operand : ValueId) : Build ValueId := define (.unaryOp .not operand · .i1)

def createBitand (lhs rhs : ValueId) : Build ValueId := define (.binaryOp .bitAnd lhs rhs · .u64)

def createBitor (lhs rhs : ValueId) : Build ValueId := define (.binaryOp .bitOr lhs rhs · .u64)

def createBitxor (lhs rhs : ValueId) : Build ValueId := define (.binaryOp .bitXor lhs rhs · .u64)

def createLoadColumn (columnId : UInt32) (rowIdx : ValueId) (type : IrType) : Build ValueId :=
  define (.loadColumnOp columnId rowIdx · type)

def createCount (input : ValueId) : Build ValueId := define (.aggregateOp .count input · .u64)

def createSum (input : ValueId) (type : IrType) : Build ValueId :=
  define (.aggregateOp (byType type .sumI64 .sumU64) input · type)

def createMin (input : ValueId) (type : IrType) : Build ValueId :=
  define (.aggregateOp (byType type .minI64 .minU64) input · type)

def createMax (input : ValueId) (type : IrType) : Build ValueId :=
  define (.aggregateOp (byType type .maxI64 .maxU64) input · type)

def createReturn (value : ValueId) : Build Unit := append (.returnOp value)

/-- The type a column's values have in the function. -/
def columnType : ColumnID → IrType
  | .exchangeTsNs | .receiveTsNs | .sequence | .tradeOrOrderId => .u64
  | .instrumentId | .quantity => .u32
  | .eventType | .side => .u8
  | .flags | .venueId | .sourceId => .u16
  | .priceTicks => .i64

/-- The names that stand for a column, in any case of letters, with its number and its type. -/
def columnInfos : List (List String × UInt32 × IrType) :=
  [ (["exchange_ts_ns", "exchange_ts"], 0, .u64),
    (["receive_ts_ns", "receive_ts"], 1, .u64),
    (["sequence", "seq"], 2, .u64),
    (["instrument_id", "symbol", "instrument"], 3, .u32),
    (["event_type"], 4, .u8),
    (["side"], 5, .u8),
    (["flags"], 6, .u16),
    (["price_ticks", "price"], 7, .i64),
    (["quantity", "qty"], 8, .u32),
    (["venue_id", "venue"], 9, .u16),
    (["source_id", "source"], 10, .u16),
    (["trade_or_order_id", "trade_id", "order_id"], 11, .u64) ]

def resolveColumnInfo (name : Bytes) : Option (UInt32 × IrType) :=
  (columnInfos.find? fun entry => entry.1.any fun spelling =>
    iequals name (nameBytes spelling)).map Prod.snd

/-- The table of the builder has the spellings of the type checker's. -/
theorem resolveColumnInfo_eq (name : Bytes) : resolveColumnInfo name =
    (TypeChecker.resolveColumn name).map fun column =>
      (UInt32.ofNat column.index, columnType column) := by
  have tables : columnInfos =
      TypeChecker.columnNames.map fun entry =>
        (entry.2, UInt32.ofNat entry.1.index, columnType entry.1) := rfl
  rw [resolveColumnInfo, tables, List.find?_map, Option.map_map,
    TypeChecker.resolveColumn, Option.map_map]
  rfl

/-- Column zero stands for a name that is not known. -/
def columnInfo (name : Bytes) : UInt32 × IrType := (resolveColumnInfo name).getD (0, .u64)

def inferType : Expression → IrType
  | .literal _ _ _ => .u64
  | .columnRef name _ _ => (columnInfo name).2
  | .binaryOp op left right _ _ =>
    match op with
    | .equal | .notEqual | .less | .lessEqual | .greater | .greaterEqual | .and | .or => .i1
    | _ => if inferType left = .i64 ∨ inferType right = .i64 then .i64 else .u64
  | .unaryOp op operand _ _ =>
    if op = .bang then .i1 else if op = .minus then .i64 else inferType operand
  | .functionCall _ _ _ _ => .u64

/-- The row index is the first parameter. -/
def rowIndex : Build ValueId := fun builder => (builder.function.parameters.headD 0, builder)

def lowerBinary (op : TokenType) (lhs rhs : ValueId) (type : IrType) : Build ValueId :=
  match op with
  | .plus => createAdd lhs rhs type
  | .minus => createSub lhs rhs type
  | .star => createMul lhs rhs type
  | .slash => createDiv lhs rhs type
  | .percent => createMod lhs rhs type
  | .equal => createEq lhs rhs type
  | .notEqual => createNe lhs rhs type
  | .less => createLt lhs rhs type
  | .lessEqual => createLe lhs rhs type
  | .greater => createGt lhs rhs type
  | .greaterEqual => createGe lhs rhs type
  | .and => createAnd lhs rhs
  | .or => createOr lhs rhs
  | .amp => createBitand lhs rhs
  | .pipe => createBitor lhs rhs
  | .caret => createBitxor lhs rhs
  | _ => pure 0

def lowerUnary (op : TokenType) (operand : ValueId) : Build ValueId :=
  match op with
  | .minus => createNeg operand .i64
  | .bang => createNot operand
  | _ => pure 0

/-- The aggregate of a lowered argument. Other functions, the average among them, have none. -/
def createAggregate (fname : Bytes) (arg : ValueId) (type : IrType) : Build ValueId :=
  if fname = nameBytes "sum" then createSum arg type
  else if fname = nameBytes "min" then createMin arg type
  else if fname = nameBytes "max" then createMax arg type
  else pure 0

mutual

def lowerExpression : Expression → Build ValueId
  | .literal value _ _ => createConstU64 value
  | .columnRef name _ _ => do
    let (columnId, type) := columnInfo name
    let row ← rowIndex
    createLoadColumn columnId row type
  | .binaryOp op left right _ _ => do
    let lhs ← lowerExpression left
    let rhs ← lowerExpression right
    lowerBinary op lhs rhs (if inferType left = .i64 ∨ inferType right = .i64 then .i64 else .u64)
  | .unaryOp op operand _ _ => do
    let lowered ← lowerExpression operand
    lowerUnary op lowered
  | .functionCall name args _ _ =>
    if name.map toLower = nameBytes "count" then do
      let row ← rowIndex
      createCount row
    else lowerArgument (name.map toLower) args

/-- Only the first argument of a call is lowered. -/
def lowerArgument (fname : Bytes) : List Expression → Build ValueId
  | [] => pure 0
  | arg :: _ => do
    let lowered ← lowerExpression arg
    createAggregate fname lowered (inferType arg)

end

/-- The aggregate call of a statement: the first `AGG` entry, else the
first projection that is a call. -/
def aggregateCall (stmt : QueryStmt) : Option (Bytes × List Expression) :=
  match stmt.aggregations with
  | (_, .functionCall name args _ _) :: _ => some (name, args)
  | _ :: _ => none
  | [] => stmt.projections.findSome? fun item =>
    match item.expr with
    | some (.functionCall name args _ _) => some (name, args)
    | _ => none

/-- A `WHERE` beside an aggregate call is not lowered. -/
def lowerStatement (stmt : QueryStmt) : Build Unit :=
  match aggregateCall stmt with
  | some (name, args) => do
    let result ←
      if name.map toLower = nameBytes "count" then do
        let row ← rowIndex
        createCount row
      else lowerArgument (name.map toLower) args
    createReturn result
  | none =>
    match stmt.whereExpr with
    | some cond => do
      let value ← lowerExpression cond
      createReturn value
    | none =>
      match stmt.projections.head?.bind SelectItem.expr with
      | some expr => do
        let value ← lowerExpression expr
        createReturn value
      | none => do
        let one ← createConstU64 1
        createReturn one

def buildFromQuery (stmt : QueryStmt) : Function :=
  let setup : Build Unit := do
    let entry ← createBlock
    modify fun builder => { builder with currentBlock := entry }
    let row ← createValue
    modify fun builder => { builder with function := { builder.function with
      parameters := builder.function.parameters ++ [row] } }
    lowerStatement stmt
  (setup.run ⟨Function.empty, 0⟩).2.function

end Builder

end VectorTick.Ir
