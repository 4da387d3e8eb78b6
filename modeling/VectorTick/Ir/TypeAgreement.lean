import VectorTick.Ir.KnownColumns

/-! The type the checker gives an expression, and the one the builder infers for it.

Both walk the same tree. They part at calls: the checker gives a sum, a least and a greatest value
the type of what they are taken of, and the builder takes every call for an unsigned word. -/

set_option autoImplicit false

namespace VectorTick.Ir

open Foundation Vts1 Query

/-- The type of the function that stands for a type of the checker. -/
def irType (type : ColumnType) : Option IrType :=
  if type = .u64 then some .u64
  else if type = .i64 then some .i64
  else if type = .u32 then some .u32
  else if type = .u16 then some .u16
  else if type = .u8 then some .u8
  else if type = boolType then some .i1
  else none

/-- The operators whose result is a number. -/
def Arithmetic : TokenType → Prop
  | .equal | .notEqual | .less | .lessEqual | .greater | .greaterEqual | .and | .or => False
  | _ => True

instance (op : TokenType) :
    Decidable (Arithmetic op) := by cases op <;> unfold Arithmetic <;> infer_instance

/-- The calls whose value is of the type of their argument. -/
def KeepsType (name : Bytes) : Prop :=
  iequals name (nameBytes "sum") ∨ iequals name (nameBytes "min") ∨ iequals name (nameBytes "max")

instance (name : Bytes) : Decidable (KeepsType name) := inferInstanceAs (Decidable (_ ∨ _ ∨ _))

mutual

/-- The value of an expression is signed: the price, a negated value, a number computed from one of
these, and, where one looks through calls, a sum, a least or a greatest value of one of these. -/
def Signed (through : Prop) : Expression → Prop
  | .literal _ _ _ => False
  | .columnRef name _ _ => TypeChecker.resolveColumn name = some .priceTicks
  | .binaryOp op left right _ _ => Arithmetic op ∧ (Signed through left ∨ Signed through right)
  | .unaryOp op operand _ _ => op ≠ .bang ∧ (op = .minus ∨ Signed through operand)
  | .functionCall name args _ _ => through ∧ KeepsType name ∧ SignedArgument through args

def SignedArgument (through : Prop) : List Expression → Prop
  | [] => False
  | arg :: _ => Signed through arg

end

def WideColumn : ColumnID → Prop
  | .exchangeTsNs | .receiveTsNs | .sequence | .tradeOrOrderId => True
  | _ => False

mutual

/-- The value of an expression is an unsigned word: a literal, a wide column, a number computed from
unsigned ones, a count, and a sum, a least or a greatest value of an unsigned word. -/
def PlainWord : Expression → Prop
  | .literal _ _ _ => True
  | .columnRef name _ _ =>
    ∃ column, TypeChecker.resolveColumn name = some column ∧ WideColumn column
  | .binaryOp op left right _ _ => Arithmetic op ∧ ¬(Signed True left ∨ Signed True right)
  | .unaryOp op operand _ _ => op ≠ .bang ∧ op ≠ .minus ∧ PlainWord operand
  | .functionCall name args _ _ => KeepsType name → PlainArgument args

def PlainArgument : List Expression → Prop
  | [] => True
  | arg :: _ => PlainWord arg

end

/-- The operands are signed without a look through calls, if they are at all. -/
def SignKept (left right : Expression) : Prop :=
  Signed True left ∨ Signed True right → Signed False left ∨ Signed False right

/-- The type of an expression does not depend on what a call keeps. -/
def TypeKept : Expression → Prop
  | .literal _ _ _ => True
  | .columnRef _ _ _ => True
  | .binaryOp op left right _ _ => Arithmetic op → SignKept left right
  | .unaryOp op operand _ _ => op ≠ .bang ∧ op ≠ .minus → TypeKept operand
  | .functionCall name args _ _ => KeepsType name → PlainArgument args

theorem getColumnType_signed (column : ColumnID) : getColumnType column = .i64 ↔
    column = .priceTicks := by
  cases column <;> decide

theorem getColumnType_wide (column : ColumnID) :
    getColumnType column = .u64 ↔ WideColumn column := by
  cases column <;> simp [getColumnType, WideColumn, ColumnType.u64, ColumnType.u32, ColumnType.u16,
    ColumnType.u8, ColumnType.i64]

theorem binaryType_arithmetic {op : TokenType} (arithmetic : Arithmetic op)
    (left right : ColumnType) :
    TypeChecker.binaryType op left right = if left = .i64 ∨ right = .i64 then .i64 else .u64 := by
  cases op <;> first | rfl | exact absurd arithmetic not_false

theorem binaryType_truth {op : TokenType} (truth : ¬Arithmetic op) (left right : ColumnType) :
    TypeChecker.binaryType op left right = boolType := by
  cases op <;> first | rfl | exact absurd trivial truth

theorem checkExpression_columnRef {name : Bytes} {line position : Nat} {type : ColumnType}
    (accepted : TypeChecker.checkExpression (.columnRef name line position) = .ok type) :
    ∃ column, TypeChecker.resolveColumn name = some column ∧ type = getColumnType column := by
  rw [TypeChecker.checkExpression] at accepted
  cases found : TypeChecker.resolveColumn name with
  | none =>
    rw [found] at accepted
    cases accepted
  | some column =>
    rw [found] at accepted
    cases accepted
    exact ⟨column, rfl, rfl⟩

theorem checkExpression_binaryOp {op : TokenType} {left right : Expression}
    {line position : Nat} {type : ColumnType}
    (accepted : TypeChecker.checkExpression (.binaryOp op left right line position) = .ok type) :
    ∃ one two, TypeChecker.checkExpression left = .ok one ∧
      TypeChecker.checkExpression right = .ok two ∧
      type = TypeChecker.binaryType op one two := by
  obtain ⟨one, first, rest⟩ := ok_bind_iff.mp accepted
  obtain ⟨two, second, last⟩ := ok_bind_iff.mp rest
  cases last
  exact ⟨one, two, first, second, rfl⟩

theorem checkExpression_unaryOp {op : TokenType} {operand : Expression}
    {line position : Nat} {type : ColumnType}
    (accepted : TypeChecker.checkExpression (.unaryOp op operand line position) = .ok type) :
    ∃ inner, TypeChecker.checkExpression operand = .ok inner ∧
      type = TypeChecker.unaryType op inner := by
  obtain ⟨inner, checked, last⟩ := ok_bind_iff.mp accepted
  cases last
  exact ⟨inner, checked, rfl⟩

theorem checkExpression_functionCall {name : Bytes} {args : List Expression}
    {line position : Nat} {type : ColumnType}
    (accepted : TypeChecker.checkExpression (.functionCall name args line position) = .ok type) :
    ∃ types, TypeChecker.checkArguments args = .ok types ∧
      type = if KeepsType name then types.headD .u64 else .u64 := by
  obtain ⟨types, checked, last⟩ := ok_bind_iff.mp accepted
  cases last
  exact ⟨types, checked, rfl⟩

theorem checkArguments_cons {arg : Expression} {rest : List Expression} {types : List ColumnType}
    (accepted : TypeChecker.checkArguments (arg :: rest) = .ok types) :
    ∃ type, TypeChecker.checkExpression arg = .ok type ∧ types.headD .u64 = type := by
  obtain ⟨type, checked, more⟩ := ok_bind_iff.mp accepted
  obtain ⟨others, _, last⟩ := ok_bind_iff.mp more
  cases last
  exact ⟨type, checked, rfl⟩

mutual

theorem checkExpression_signed : (e : Expression) → ∀ {type : ColumnType},
    TypeChecker.checkExpression e = .ok type → (type = .i64 ↔ Signed True e)
  | .literal _ _ _, _, accepted => by
    cases accepted
    exact iff_of_false (by decide) not_false
  | .columnRef name _ _, type, accepted => by
    obtain ⟨column, found, rfl⟩ := checkExpression_columnRef accepted
    rw [getColumnType_signed, Signed, found, Option.some_inj]
  | .binaryOp op left right _ _, type, accepted => by
    obtain ⟨one, two, first, second, rfl⟩ := checkExpression_binaryOp accepted
    rw [Signed, ← checkExpression_signed left first, ← checkExpression_signed right second]
    by_cases arithmetic : Arithmetic op
    · rw [binaryType_arithmetic arithmetic, and_iff_right arithmetic]
      exact (by decide : ColumnType.i64 ≠ .u64).ite_eq_left_iff
    · rw [binaryType_truth arithmetic]
      exact iff_of_false (by decide) fun both => arithmetic both.1
  | .unaryOp op operand _ _, type, accepted => by
    obtain ⟨inner, checked, rfl⟩ := checkExpression_unaryOp accepted
    rw [Signed, ← checkExpression_signed operand checked, TypeChecker.unaryType]
    by_cases bang : op = .bang
    · rw [if_pos bang]
      exact iff_of_false (by decide) fun both => both.1 bang
    by_cases minus : op = .minus
    · rw [if_neg bang, if_pos minus]
      exact iff_of_true rfl ⟨bang, .inl minus⟩
    · rw [if_neg bang, if_neg minus]
      exact ⟨fun signed => ⟨bang, .inr signed⟩, fun both => both.2.resolve_left minus⟩
  | .functionCall name args _ _, type, accepted => by
    obtain ⟨types, checked, rfl⟩ := checkExpression_functionCall accepted
    rw [Signed, true_and, ← checkArguments_signed args checked]
    by_cases keeps : KeepsType name
    · rw [if_pos keeps, and_iff_right keeps]
    · rw [if_neg keeps]
      exact iff_of_false (by decide) fun both => keeps both.1

theorem checkArguments_signed : (args : List Expression) → ∀ {types : List ColumnType},
    TypeChecker.checkArguments args = .ok types →
      (types.headD .u64 = .i64 ↔ SignedArgument True args)
  | [], _, accepted => by
    cases accepted
    exact iff_of_false (by decide) not_false
  | arg :: _, _, accepted => by
    obtain ⟨type, checked, same⟩ := checkArguments_cons accepted
    rw [same, SignedArgument]
    exact checkExpression_signed arg checked

end

mutual

theorem checkExpression_plain : (e : Expression) → ∀ {type : ColumnType},
    TypeChecker.checkExpression e = .ok type → (type = .u64 ↔ PlainWord e)
  | .literal _ _ _, _, accepted => by
    cases accepted
    exact iff_of_true rfl trivial
  | .columnRef name _ _, type, accepted => by
    obtain ⟨column, found, rfl⟩ := checkExpression_columnRef accepted
    rw [getColumnType_wide, PlainWord, found]
    exact ⟨fun wide => ⟨column, rfl, wide⟩, fun ⟨_, same, wide⟩ => Option.some.inj same ▸ wide⟩
  | .binaryOp op left right _ _, type, accepted => by
    obtain ⟨one, two, first, second, rfl⟩ := checkExpression_binaryOp accepted
    rw [PlainWord, ← checkExpression_signed left first, ← checkExpression_signed right second]
    by_cases arithmetic : Arithmetic op
    · rw [binaryType_arithmetic arithmetic, and_iff_right arithmetic]
      exact (by decide : ColumnType.i64 ≠ .u64).ite_eq_right_iff
    · rw [binaryType_truth arithmetic]
      exact iff_of_false (by decide) fun both => arithmetic both.1
  | .unaryOp op operand _ _, type, accepted => by
    obtain ⟨inner, checked, rfl⟩ := checkExpression_unaryOp accepted
    rw [PlainWord, ← checkExpression_plain operand checked, TypeChecker.unaryType]
    by_cases bang : op = .bang
    · rw [if_pos bang]
      exact iff_of_false (by decide) fun both => both.1 bang
    by_cases minus : op = .minus
    · rw [if_neg bang, if_pos minus]
      exact iff_of_false (by decide) fun both => both.2.1 minus
    · rw [if_neg bang, if_neg minus, and_iff_right bang, and_iff_right minus]
  | .functionCall name args _ _, type, accepted => by
    obtain ⟨types, checked, rfl⟩ := checkExpression_functionCall accepted
    rw [PlainWord, ← checkArguments_plain args checked]
    by_cases keeps : KeepsType name
    · rw [if_pos keeps, imp_iff_right keeps]
    · rw [if_neg keeps]
      exact iff_of_true rfl fun kept => absurd kept keeps

theorem checkArguments_plain : (args : List Expression) → ∀ {types : List ColumnType},
    TypeChecker.checkArguments args = .ok types → (types.headD .u64 = .u64 ↔ PlainArgument args)
  | [], _, accepted => by
    cases accepted
    exact iff_of_true rfl trivial
  | arg :: _, _, accepted => by
    obtain ⟨type, checked, same⟩ := checkArguments_cons accepted
    rw [same, PlainArgument]
    exact checkExpression_plain arg checked

end

theorem columnInfo_known {name : Bytes} {column : ColumnID}
    (found : TypeChecker.resolveColumn name = some column) :
    Builder.columnInfo name = (UInt32.ofNat column.index, Builder.columnType column) := by
  rw [Builder.columnInfo, Builder.resolveColumnInfo_eq, found]
  rfl

theorem columnType_eq (column : ColumnID) :
    irType (getColumnType column) = some (Builder.columnType column) := by
  cases column <;> decide

theorem columnInfo_signed (name : Bytes) :
    (Builder.columnInfo name).2 = .i64 ↔ TypeChecker.resolveColumn name = some .priceTicks := by
  cases found : TypeChecker.resolveColumn name with
  | none =>
    rw [Builder.columnInfo, Builder.resolveColumnInfo_eq, found]
    exact iff_of_false (by decide) (by decide)
  | some column =>
    rw [columnInfo_known found, Option.some_inj]
    cases column <;> decide

theorem inferType_arithmetic {op : TokenType} (arithmetic : Arithmetic op)
    (left right : Expression) (line position : Nat) :
    Builder.inferType (.binaryOp op left right line position) =
      if Builder.inferType left = .i64 ∨ Builder.inferType right = .i64 then .i64 else .u64 := by
  cases op <;> first | exact absurd arithmetic not_false | (simp only [Builder.inferType])

theorem inferType_truth {op : TokenType} (truth : ¬Arithmetic op)
    (left right : Expression) (line position : Nat) :
    Builder.inferType (.binaryOp op left right line position) = .i1 := by
  cases op <;> first | exact absurd trivial truth | rw [Builder.inferType]

theorem inferType_signed (e : Expression) : Builder.inferType e = .i64 ↔ Signed False e := by
  cases e with
  | literal =>
    rw [Builder.inferType, Signed]
    exact iff_of_false (by decide) not_false
  | columnRef name =>
    rw [Builder.inferType, Signed]
    exact columnInfo_signed name
  | binaryOp op left right =>
    rw [Signed, ← inferType_signed left, ← inferType_signed right]
    by_cases arithmetic : Arithmetic op
    · rw [inferType_arithmetic arithmetic, and_iff_right arithmetic]
      exact (by decide : IrType.i64 ≠ .u64).ite_eq_left_iff
    · rw [inferType_truth arithmetic]
      exact iff_of_false (by decide) fun both => arithmetic both.1
  | unaryOp op operand =>
    rw [Signed, ← inferType_signed operand, Builder.inferType]
    by_cases bang : op = .bang
    · rw [if_pos bang]
      exact iff_of_false (by decide) fun both => both.1 bang
    by_cases minus : op = .minus
    · rw [if_neg bang, if_pos minus]
      exact iff_of_true rfl ⟨bang, .inl minus⟩
    · rw [if_neg bang, if_neg minus]
      exact ⟨fun signed => ⟨bang, .inr signed⟩, fun both => both.2.resolve_left minus⟩
  | functionCall =>
    rw [Builder.inferType, Signed]
    exact iff_of_false (by decide) fun both => both.1

theorem signed_mono : (e : Expression) → Signed False e → Signed True e
  | .literal _ _ _, signed => signed
  | .columnRef _ _ _, signed => signed
  | .binaryOp _ left right _ _, ⟨arithmetic, signed⟩ =>
    ⟨arithmetic, signed.imp (signed_mono left) (signed_mono right)⟩
  | .unaryOp _ operand _ _, ⟨number, signed⟩ => ⟨number, signed.imp_right (signed_mono operand)⟩
  | .functionCall _ _ _ _, ⟨through, _⟩ => through.elim

theorem irType_number {first second : Prop} [Decidable first] [Decidable second] :
    irType (if first then .i64 else .u64) = some (if second then .i64 else .u64) ↔
      (first ↔ second) := by
  by_cases one : first <;> by_cases two : second <;> simp only [one, two, if_true, if_false,
    iff_true, iff_false] <;> decide

theorem irType_word (type : ColumnType) : irType type = some .u64 ↔ type = .u64 := by
  unfold irType
  by_cases word : type = .u64
  · exact iff_of_true (if_pos word) word
  · rw [if_neg word]
    refine iff_of_false ?_ word
    split_ifs <;> exact (nomatch ·)

/-- The type that the lowering of a binary operator selects its opcode by. -/
def operatorType (left right : Expression) : IrType :=
  if Builder.inferType left = .i64 ∨ Builder.inferType right = .i64 then .i64 else .u64

theorem operatorType_iff {left right : Expression} {one two : ColumnType}
    (first : TypeChecker.checkExpression left = .ok one)
    (second : TypeChecker.checkExpression right = .ok two) :
    (operatorType left right = .i64 ↔ one = .i64 ∨ two = .i64) ↔ SignKept left right := by
  rw [operatorType, (by decide : IrType.i64 ≠ .u64).ite_eq_left_iff, inferType_signed,
    inferType_signed, checkExpression_signed left first, checkExpression_signed right second,
    SignKept]
  exact ⟨fun same => same.mpr, fun kept => ⟨Or.imp (signed_mono left) (signed_mono right), kept⟩⟩

theorem inferType_eq_iff : (e : Expression) →
    ∀ {type : ColumnType}, TypeChecker.checkExpression e = .ok type →
    (irType type = some (Builder.inferType e) ↔ TypeKept e)
  | .literal _ _ _, _, accepted => by
    cases accepted
    rw [Builder.inferType]
    exact iff_of_true rfl trivial
  | .columnRef name _ _, type, accepted => by
    obtain ⟨column, found, rfl⟩ := checkExpression_columnRef accepted
    rw [Builder.inferType, columnInfo_known found, columnType_eq]
    exact iff_of_true rfl trivial
  | .binaryOp op left right line position, type, accepted => by
    obtain ⟨one, two, first, second, rfl⟩ := checkExpression_binaryOp accepted
    rw [TypeKept]
    by_cases arithmetic : Arithmetic op
    · rw [binaryType_arithmetic arithmetic, inferType_arithmetic arithmetic, irType_number,
        imp_iff_right arithmetic, ← operatorType_iff first second, operatorType,
        (by decide : IrType.i64 ≠ .u64).ite_eq_left_iff]
      exact Iff.comm
    · rw [binaryType_truth arithmetic, inferType_truth arithmetic]
      exact iff_of_true rfl fun number => absurd number arithmetic
  | .unaryOp op operand _ _, type, accepted => by
    obtain ⟨inner, checked, rfl⟩ := checkExpression_unaryOp accepted
    rw [TypeKept, ← inferType_eq_iff operand checked, Builder.inferType, TypeChecker.unaryType]
    by_cases bang : op = .bang
    · rw [if_pos bang, if_pos bang]
      exact iff_of_true rfl fun both => absurd bang both.1
    by_cases minus : op = .minus
    · rw [if_neg bang, if_neg bang, if_pos minus, if_pos minus]
      exact iff_of_true rfl fun both => absurd minus both.2
    · rw [if_neg bang, if_neg bang, if_neg minus, if_neg minus, imp_iff_right ⟨bang, minus⟩]
  | .functionCall name args _ _, type, accepted => by
    obtain ⟨types, checked, rfl⟩ := checkExpression_functionCall accepted
    rw [Builder.inferType, irType_word, TypeKept, ← checkArguments_plain args checked]
    by_cases keeps : KeepsType name
    · rw [if_pos keeps, imp_iff_right keeps]
    · rw [if_neg keeps]
      exact iff_of_true rfl fun kept => absurd kept keeps

/-- The builder infers the checker's type, and selects the operator by the checker's
signs, exactly where no sum, least or greatest value of something else than an
unsigned word stands in the way. -/
theorem inferType_agrees_iff {e : Expression} {type : ColumnType}
    (accepted : TypeChecker.checkExpression e = .ok type) :
    (irType type = some (Builder.inferType e) ↔ TypeKept e) ∧
    ∀ op left right line position, e = .binaryOp op left right line position → ∃ one two,
      TypeChecker.checkExpression left = .ok one ∧ TypeChecker.checkExpression right = .ok two ∧
        ((operatorType left right = .i64 ↔ one = .i64 ∨ two = .i64) ↔ SignKept left right) := by
  refine ⟨inferType_eq_iff e accepted, fun op left right line position shape => ?_⟩
  subst shape
  obtain ⟨one, two, first, second, _⟩ := checkExpression_binaryOp accepted
  exact ⟨one, two, first, second, operatorType_iff first second⟩

theorem inferType_agrees_negated : ∃ e,
    TypeChecker.checkExpression e = .ok .i64 ∧ irType .i64 = some (Builder.inferType e) := by
  refine ⟨.binaryOp .plus (.unaryOp .minus (.columnRef (nameBytes "seq") 1 2) 1 1)
    (.columnRef (nameBytes "qty") 1 8) 1 6,
    by decide +kernel, (inferType_agrees_iff (by decide +kernel)).1.mpr ?_⟩
  exact fun _ _ => .inl ⟨by decide, .inl rfl⟩

def lessSides : Option Expression → Option (Expression × Expression)
  | some (.binaryOp .less left right _ _) => some (left, right)
  | _ => none

theorem eq_of_lessSides {e : Option Expression} {left right : Expression}
    (sides : lessSides e = some (left, right)) :
    ∃ line position, e = some (.binaryOp .less left right line position) := by
  unfold lessSides at sides
  split at sides
  next =>
    cases sides
    exact ⟨_, _, rfl⟩
  next => cases sides

/-- The least price is signed for the checker, and the builder compares it without sign. -/
theorem inferType_misses_min : ∃ stmt left right line position,
    Parser.parse 60 (nameBytes "SELECT price WHERE min(price) < 5") = some (.ok stmt) ∧
      stmt.whereExpr = some (.binaryOp .less left right line position) ∧
      TypeChecker.checkExpression left = .ok .i64 ∧ TypeChecker.checkExpression right = .ok .u64 ∧
      irType .i64 ≠ some (Builder.inferType left) ∧ operatorType left right = .u64 := by
  obtain ⟨stmt, accepted, tested⟩ :=
    @Parser.accepted_of_test 60 (nameBytes "SELECT price WHERE min(price) < 5")
    (fun stmt => (lessSides stmt.whereExpr).any fun sides =>
      decide (TypeChecker.checkExpression sides.1 = .ok .i64) && decide
        (TypeChecker.checkExpression sides.2 = .ok .u64) &&
        decide (irType .i64 ≠ some (Builder.inferType sides.1)) && decide
          (operatorType sides.1 sides.2 = .u64))
    (by decide +kernel)
  obtain ⟨⟨left, right⟩, sides, tested⟩ := (Option.any_eq_true _ _).mp tested
  obtain ⟨line, position, shape⟩ := eq_of_lessSides sides
  rw [Bool.and_eq_true, Bool.and_eq_true, Bool.and_eq_true] at tested
  obtain ⟨⟨⟨first, second⟩, missed⟩, unsigned⟩ := tested
  exact ⟨stmt, left, right, line, position, accepted, shape, of_decide_eq_true first,
    of_decide_eq_true second,
    of_decide_eq_true missed, of_decide_eq_true unsigned⟩

end VectorTick.Ir
