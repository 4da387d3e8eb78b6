import VectorTick.Storage.FileFormat

/-! Tokens and syntax trees of the query language.

Texts are the bytes of the query. A null pointer is `none`; inside an expression the parser never
stores one, so operands are expressions.
-/

set_option autoImplicit false

namespace VectorTick.Query

open Foundation

inductive TokenType where
  | eof
  | integerLiteral
  | identifier
  | select
  | from_
  | where_
  | let_
  | group
  | by_
  | agg
  | order
  | limit
  | and
  | or
  | not
  | true_
  | false_
  | tumble
  | as_
  | asc
  | desc
  | count
  | sum
  | min
  | max
  | avg
  | plus
  | minus
  | star
  | slash
  | percent
  | equal
  | notEqual
  | less
  | lessEqual
  | greater
  | greaterEqual
  | ampAmp
  | pipePipe
  | bang
  | amp
  | pipe
  | caret
  | lParen
  | rParen
  | comma
  | semicolon
  | error
  deriving DecidableEq, Repr

inductive Expression where
  | literal (value : UInt64) (line column : Nat)
  | columnRef (name : Bytes) (line column : Nat)
  | binaryOp (op : TokenType) (left right : Expression) (line column : Nat)
  | unaryOp (op : TokenType) (operand : Expression) (line column : Nat)
  | functionCall (name : Bytes) (args : List Expression) (line column : Nat)

@[elab_as_elim]
theorem Expression.induction {P : Expression → Prop} {Q : List Expression → Prop}
    (literal : ∀ value line column, P (.literal value line column))
    (columnRef : ∀ name line column, P (.columnRef name line column))
    (binaryOp : ∀ op left right line column, P left → P right →
      P (.binaryOp op left right line column))
    (unaryOp : ∀ op operand line column, P operand → P (.unaryOp op operand line column))
    (functionCall : ∀ name args line column, Q args → P (.functionCall name args line column))
    (nil : Q []) (cons : ∀ arg args, P arg → Q args → Q (arg :: args)) (e : Expression) : P e :=
  @Expression.rec P Q literal columnRef binaryOp unaryOp functionCall nil cons e

/-- A projection: an expression, or the wildcard, which has none. -/
structure SelectItem where
  expr : Option Expression
  alias_ : Bytes
  isWildcard : Bool

structure QueryStmt where
  projections : List SelectItem
  tableName : Bytes
  whereExpr : Option Expression
  letBindings : List (Bytes × Option Expression)
  groupByColumns : List Bytes
  tumbleWindow : Option Expression
  aggregations : List (Bytes × Expression)
  orderBy : List (Bytes × Bool)
  limit : UInt64
  line : Nat
  column : Nat

/-- `std::toupper` and `std::tolower` in the C locale. -/
def toUpper (c : UInt8) : UInt8 := if 97 ≤ c ∧ c ≤ 122 then c - 32 else c

def toLower (c : UInt8) : UInt8 := if 65 ≤ c ∧ c ≤ 90 then c + 32 else c

def iequals (a b : Bytes) : Bool := a.map toUpper = b.map toUpper

end VectorTick.Query
