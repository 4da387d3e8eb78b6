import VectorTick.Execution.FilterLaws
import VectorTick.Execution.ReferenceInterpreter
import VectorTick.Foundation.MachineIntegers
import VectorTick.Ir.Builder

/-! What an expression means: a direct evaluation beyond integers, and the checked arithmetic of the
interpreter as arithmetic beyond integers that have to fit.

Operands are evaluated left to right and both of them always. An operation is at signed 64 bits if
one of its sides is inferred to be signed, and at unsigned 64 bits otherwise.
-/

set_option autoImplicit false

namespace VectorTick.Evaluation

open Foundation Vts1 Query Ir

/-- A word read as a signed number. -/
def signed (word : UInt64) : Int := word.toInt64.toInt

/-- The word of a signed result, if it fits into one. -/
def fitSigned (message : String) (value : Int) : Except Stop UInt64 :=
  if -2 ^ 63 ≤ value ∧ value < 2 ^ 63 then .ok (Int64.ofInt value).toUInt64
    else failWith .internalError message

/-- The word of an unsigned result, if it fits into one. -/
def fitUnsigned (message : String) (value : Int) : Except Stop UInt64 :=
  if 0 ≤ value ∧ value < 2 ^ 64 then .ok (UInt64.ofNat value.toNat)
    else failWith .internalError message

def arithmetic (type : IrType) (message : String) (op : Int → Int → Int) (a b : UInt64) :
    Except Stop UInt64 :=
  if type = .i64 then fitSigned message (op (signed a) (signed b))
    else fitUnsigned message (op a.toNat b.toNat)

/-- Signed division truncates. The one quotient that does not fit has no value. -/
def quotient (type : IrType) (a b : UInt64) : Except Stop UInt64 :=
  if b = 0 then failWith .internalError "Division by zero"
  else if type = .i64 then
    if signed a = -2 ^ 63 ∧ signed b = -1 then .error .fault
    else .ok (Int64.ofInt ((signed a).tdiv (signed b))).toUInt64
  else .ok (UInt64.ofNat (a.toNat / b.toNat))

/-- There is no signed remainder. -/
def remainder (type : IrType) (a b : UInt64) : Except Stop UInt64 :=
  if type = .i64 then failWith .notImplemented "Opcode not implemented"
  else if b = 0 then failWith .internalError "Modulo by zero"
  else .ok (UInt64.ofNat (a.toNat % b.toNat))

def comparison (type : IrType) (relation : Int → Int → Bool) (a b : UInt64) : Except Stop UInt64 :=
  .ok (if if type = .i64 then relation (signed a) (signed b)
    else relation a.toNat b.toNat then 1 else 0)

def applyBinary (op : TokenType) (type : IrType) (a b : UInt64) : Except Stop UInt64 :=
  match op with
  | .plus => arithmetic type "Addition overflow" (· + ·) a b
  | .minus => arithmetic type "Subtraction underflow" (· - ·) a b
  | .star => arithmetic type "Multiplication overflow" (· * ·) a b
  | .slash => quotient type a b
  | .percent => remainder type a b
  | .equal => comparison type (fun x y => x = y) a b
  | .notEqual => comparison type (fun x y => x ≠ y) a b
  | .less => comparison type (fun x y => x < y) a b
  | .lessEqual => comparison type (fun x y => x ≤ y) a b
  | .greater => comparison type (fun x y => y < x) a b
  | .greaterEqual => comparison type (fun x y => y ≤ x) a b
  | .and => .ok (if a ≠ 0 ∧ b ≠ 0 then 1 else 0)
  | .or => .ok (if a ≠ 0 ∨ b ≠ 0 then 1 else 0)
  | .amp => .ok (a &&& b)
  | .pipe => .ok (a ||| b)
  | .caret => .ok (a ^^^ b)
  | _ => .error .fault

def applyUnary (op : TokenType) (a : UInt64) : Except Stop UInt64 :=
  match op with
  | .minus => fitSigned "Negation overflow" (-signed a)
  | .bang => .ok (if a = 0 then 1 else 0)
  | _ => .error .fault

/-- The column a name stands for; the first one where the name is not known. -/
def columnNamed (name : Bytes) : ColumnID := (TypeChecker.resolveColumn name).getD .exchangeTsNs

def operandType (left right : Expression) : IrType :=
  if Builder.inferType left = .i64 ∨ Builder.inferType right = .i64 then .i64 else .u64

/-- The value of an expression without calls on an event. -/
def evaluate (event : CanonicalEvent) : Expression → Except Stop UInt64
  | .literal value _ _ => .ok value
  | .columnRef name _ _ => .ok (UInt64.ofInt (VectorExecutor.columnValue (columnNamed name) event))
  | .binaryOp op left right _ _ => do
    let a ← evaluate event left
    let b ← evaluate event right
    applyBinary op (operandType left right) a b
  | .unaryOp op operand _ _ => do
    let a ← evaluate event operand
    applyUnary op a
  | .functionCall _ _ _ _ => .error .fault

/-- The operators the parser makes expressions with. -/
def isBinaryOperator : TokenType → Bool
  | .or | .and | .pipe | .caret | .amp | .equal | .notEqual | .less | .lessEqual |
    .greater | .greaterEqual | .plus
  | .minus | .star | .slash | .percent => true
  | _ => false

def isUnaryOperator : TokenType → Bool
  | .minus | .bang => true
  | _ => false

/-- An expression of the parser without a call. -/
def CallFree : Expression → Prop
  | .literal _ _ _ | .columnRef _ _ _ => True
  | .binaryOp op left right _ _ => isBinaryOperator op = true ∧ CallFree left ∧ CallFree right
  | .unaryOp op operand _ _ => isUnaryOperator op = true ∧ CallFree operand
  | .functionCall _ _ _ _ => False

open ReferenceInterpreter

theorem fitSigned_eq (message : String) (exact : Int64) :
    fitSigned message exact.toInt = .ok exact.toUInt64 := by
  rw [fitSigned, if_pos ⟨exact.le_toInt, exact.toInt_lt⟩, Int64.ofInt_toInt]

theorem fitSigned_outside {message : String} {value : Int}
    (outside : ¬ (-2 ^ 63 ≤ value ∧ value < 2 ^ 63)) :
    fitSigned message value = failWith .internalError message := by
  rw [fitSigned, if_neg outside]

/-- A checked signed operation gives the exact value where it fits and nothing elsewhere. -/
theorem orFail_signed {message : String} {result : Option Int64} {value : Int} {exact : Int64}
    (fits : -2 ^ 63 ≤ value ∧ value < 2 ^ 63 → exact.toInt = value ∧ result = some exact)
    (outside : ¬ (-2 ^ 63 ≤ value ∧ value < 2 ^ 63) → result = none) :
    orFail message (result.map Int64.toUInt64) = fitSigned message value := by
  by_cases inside : -2 ^ 63 ≤ value ∧ value < 2 ^ 63
  · obtain ⟨same, found⟩ := fits inside
    rw [← same, fitSigned_eq, found]
    rfl
  · rw [fitSigned_outside inside, outside inside]
    rfl

theorem orFail_unsigned {message : String} {result : Option UInt64} {value : Int} {exact : UInt64}
    (fits : 0 ≤ value ∧ value < 2 ^ 64 → (exact.toNat : Int) = value ∧ result = some exact)
    (outside : ¬ (0 ≤ value ∧ value < 2 ^ 64) → result = none) :
    orFail message result = fitUnsigned message value := by
  unfold fitUnsigned
  by_cases inside : 0 ≤ value ∧ value < 2 ^ 64
  · obtain ⟨same, found⟩ := fits inside
    rw [if_pos inside, found, ← same, Int.toNat_natCast, UInt64.ofNat_toNat]
    rfl
  · rw [if_neg inside, outside inside]
    rfl

section Unsigned

variable (message : String) (a b : UInt64)

theorem toNat_top_sub : (0xFFFFFFFFFFFFFFFF - b).toNat = 2 ^ 64 - 1 - b.toNat := by
  have below := b.toNat_lt
  have order : b ≤ 0xFFFFFFFFFFFFFFFF := by
    rw [UInt64.le_iff_toNat_le]
    change b.toNat ≤ 2 ^ 64 - 1
    omega
  rw [UInt64.toNat_sub_of_le _ _ order]
  rfl

theorem checkedAddU64_eq : orFail message (checkedAddU64 a b) =
    fitUnsigned message (a.toNat + b.toNat) := by
  have less : a > 0xFFFFFFFFFFFFFFFF - b ↔ ¬ (a.toNat + b.toNat < 2 ^ 64) := by
    have below := b.toNat_lt
    rw [gt_iff_lt, UInt64.lt_iff_toNat_lt, toNat_top_sub]
    omega
  unfold checkedAddU64
  apply orFail_unsigned
  · rintro ⟨-, fits⟩
    have fits' : a.toNat + b.toNat < 2 ^ 64 := by omega
    refine ⟨?_, if_neg fun high => less.mp high fits'⟩
    rw [UInt64.toNat_add, Nat.mod_eq_of_lt fits']
    push_cast
    rfl
  · intro outside
    exact if_pos (less.mpr (by omega))

theorem checkedSubU64_eq : orFail message (checkedSubU64 a b) =
    fitUnsigned message (a.toNat - b.toNat) := by
  have below := a.toNat_lt
  unfold checkedSubU64
  apply orFail_unsigned
  · rintro ⟨fits, -⟩
    have order : b.toNat ≤ a.toNat := by omega
    refine ⟨?_, if_neg fun less => ?_⟩
    · rw [UInt64.toNat_sub_of_le _ _ (UInt64.le_iff_toNat_le.mpr order), Nat.cast_sub order]
    · rw [UInt64.lt_iff_toNat_lt] at less
      omega
  · intro outside
    refine if_pos ?_
    rw [UInt64.lt_iff_toNat_lt]
    omega

theorem checkedMulU64_eq : orFail message (checkedMulU64 a b) =
    fitUnsigned message (a.toNat * b.toNat) := by
  have high : (a > 0 ∧ b > 0xFFFFFFFFFFFFFFFF / a) ↔ ¬ (a.toNat * b.toNat < 2 ^ 64) := by
    rw [gt_iff_lt, gt_iff_lt, UInt64.lt_iff_toNat_lt, UInt64.lt_iff_toNat_lt, UInt64.toNat_div]
    change 0 < a.toNat ∧ (2 ^ 64 - 1) / a.toNat < b.toNat ↔ _
    constructor
    · rintro ⟨positive, beyond⟩ fits
      rw [Nat.div_lt_iff_lt_mul positive, Nat.mul_comm] at beyond
      omega
    · intro beyond
      have positive : 0 < a.toNat := by
        rcases Nat.eq_zero_or_pos a.toNat with zero | positive
        · rw [zero, Nat.zero_mul] at beyond
          omega
        · exact positive
      refine ⟨positive, ?_⟩
      rw [Nat.div_lt_iff_lt_mul positive, Nat.mul_comm]
      omega
  unfold checkedMulU64
  apply orFail_unsigned
  · rintro ⟨-, fits⟩
    have fits' : a.toNat * b.toNat < 2 ^ 64 := by exact_mod_cast fits
    refine ⟨?_, if_neg fun beyond => high.mp beyond fits'⟩
    rw [UInt64.toNat_mul, Nat.mod_eq_of_lt fits']
    push_cast
    rfl
  · intro outside
    refine if_pos (high.mpr fun fits => outside ⟨by positivity, ?_⟩)
    exact_mod_cast fits

end Unsigned

section Signed

variable (message : String) (a b : Int64)

theorem bmod_of_fits {value : Int} (fits : -2 ^ 63 ≤ value ∧ value < 2 ^ 63) :
    value.bmod (2 ^ 64) = value :=
  Int.bmod_eq_of_le (by omega) (by omega)

theorem checkedAddI64_eq :
    orFail message ((checkedAddI64 a b).map Int64.toUInt64) =
      fitSigned message (a.toInt + b.toInt) := by
  have lowA := a.le_toInt
  have highA := a.toInt_lt
  have lowB := b.le_toInt
  have highB := b.toInt_lt
  have zero : (0 : Int64).toInt = 0 := by decide
  have top : b.toInt > 0 → (Int64.maxValue - b).toInt = 2 ^ 63 - 1 - b.toInt := by
    intro positive
    rw [Int64.toInt_sub, show Int64.maxValue.toInt = 2 ^ 63 - 1 by decide, bmod_of_fits (by omega)]
  have bottom : b.toInt < 0 → (Int64.minValue - b).toInt = -2 ^ 63 - b.toInt := by
    intro negative
    rw [Int64.toInt_sub, show Int64.minValue.toInt = -2 ^ 63 by decide, bmod_of_fits (by omega)]
  have beyond : (b > 0 ∧ a > Int64.maxValue - b) ↔ 2 ^ 63 ≤ a.toInt + b.toInt := by
    rw [gt_iff_lt, gt_iff_lt, Int64.lt_iff_toInt_lt, Int64.lt_iff_toInt_lt, zero]
    constructor
    · rintro ⟨positive, more⟩
      rw [top positive] at more
      omega
    · intro more
      have positive : 0 < b.toInt := by omega
      exact ⟨positive, by rw [top positive]; omega⟩
  have under : (b < 0 ∧ a < Int64.minValue - b) ↔ a.toInt + b.toInt < -2 ^ 63 := by
    rw [Int64.lt_iff_toInt_lt, Int64.lt_iff_toInt_lt, zero]
    constructor
    · rintro ⟨negative, less⟩
      rw [bottom negative] at less
      omega
    · intro less
      have negative : b.toInt < 0 := by omega
      exact ⟨negative, by rw [bottom negative]; omega⟩
  unfold checkedAddI64
  apply orFail_signed
  · intro fits
    refine ⟨by rw [Int64.toInt_add, bmod_of_fits fits], ?_⟩
    rw [if_neg (by rw [beyond]; omega), if_neg (by rw [under]; omega)]
  · intro outside
    by_cases high : 2 ^ 63 ≤ a.toInt + b.toInt
    · exact if_pos (beyond.mpr high)
    · rw [if_neg (by rw [beyond]; exact high), if_pos (under.mpr (by omega))]

theorem checkedSubI64_eq :
    orFail message ((checkedSubI64 a b).map Int64.toUInt64) =
      fitSigned message (a.toInt - b.toInt) := by
  have lowA := a.le_toInt
  have highA := a.toInt_lt
  have lowB := b.le_toInt
  have highB := b.toInt_lt
  have zero : (0 : Int64).toInt = 0 := by decide
  have bottom : b.toInt > 0 → (Int64.minValue + b).toInt = -2 ^ 63 + b.toInt := by
    intro positive
    rw [Int64.toInt_add, show Int64.minValue.toInt = -2 ^ 63 by decide, bmod_of_fits (by omega)]
  have top : b.toInt < 0 → (Int64.maxValue + b).toInt = 2 ^ 63 - 1 + b.toInt := by
    intro negative
    rw [Int64.toInt_add, show Int64.maxValue.toInt = 2 ^ 63 - 1 by decide, bmod_of_fits (by omega)]
  have under : (b > 0 ∧ a < Int64.minValue + b) ↔ a.toInt - b.toInt < -2 ^ 63 := by
    rw [gt_iff_lt, Int64.lt_iff_toInt_lt, Int64.lt_iff_toInt_lt, zero]
    constructor
    · rintro ⟨positive, less⟩
      rw [bottom positive] at less
      omega
    · intro less
      have positive : 0 < b.toInt := by omega
      exact ⟨positive, by rw [bottom positive]; omega⟩
  have beyond : (b < 0 ∧ a > Int64.maxValue + b) ↔ 2 ^ 63 ≤ a.toInt - b.toInt := by
    rw [gt_iff_lt, Int64.lt_iff_toInt_lt, Int64.lt_iff_toInt_lt, zero]
    constructor
    · rintro ⟨negative, more⟩
      rw [top negative] at more
      omega
    · intro more
      have negative : b.toInt < 0 := by omega
      exact ⟨negative, by rw [top negative]; omega⟩
  unfold checkedSubI64
  apply orFail_signed
  · intro fits
    refine ⟨by rw [Int64.toInt_sub, bmod_of_fits fits], ?_⟩
    rw [if_neg (by rw [under]; omega), if_neg (by rw [beyond]; omega)]
  · intro outside
    by_cases low : a.toInt - b.toInt < -2 ^ 63
    · exact if_pos (under.mpr low)
    · rw [if_neg (by rw [under]; exact low), if_pos (beyond.mpr (by omega))]

theorem toInt_max_div : (Int64.maxValue / b).toInt = (2 ^ 63 - 1 : Int).tdiv b.toInt := by
  rw [Int64.toInt_div_of_ne_left _ _ (by decide)]
  rfl

theorem toInt_min_div (positive : 0 < b.toInt) :
    (Int64.minValue / b).toInt = -(2 ^ 63 / b.toInt) := by
  have other : b ≠ -1 := by
    rintro rfl
    exact absurd positive (by decide)
  rw [Int64.toInt_div_of_ne_right _ _ other, show Int64.minValue.toInt = -(2 ^ 63) by decide,
    Int.neg_tdiv, Int.tdiv_eq_ediv_of_nonneg (by norm_num)]

theorem checkedMulI64_eq :
    orFail message ((checkedMulI64 a b).map Int64.toUInt64) =
      fitSigned message (a.toInt * b.toInt) := by
  have lowA := a.le_toInt
  have highA := a.toInt_lt
  have lowB := b.le_toInt
  have highB := b.toInt_lt
  have zero : (0 : Int64).toInt = 0 := by decide
  have product : -2 ^ 63 ≤ a.toInt * b.toInt ∧ a.toInt * b.toInt < 2 ^ 63 →
      (a * b).toInt = a.toInt * b.toInt :=
    fun fits => by rw [Int64.toInt_mul, bmod_of_fits fits]
  unfold checkedMulI64
  by_cases either : a = 0 ∨ b = 0
  · rw [if_pos either]
    have none : a.toInt * b.toInt = 0 := by
      rcases either with rfl | rfl
      · rw [zero, Int.zero_mul]
      · rw [zero, Int.mul_zero]
    rw [none, ← zero, fitSigned_eq]
    rfl
  rw [if_neg either]
  by_cases oneA : a = 1
  · rw [if_pos oneA, oneA, show (1 : Int64).toInt = 1 by decide, Int.one_mul, fitSigned_eq]
    rfl
  rw [if_neg oneA]
  by_cases oneB : b = 1
  · rw [if_pos oneB, oneB, show (1 : Int64).toInt = 1 by decide, Int.mul_one, fitSigned_eq]
    rfl
  rw [if_neg oneB]
  have nonzeroA : a.toInt ≠ 0 :=
    fun isZero => either (.inl (Int64.toInt_inj.mp (isZero.trans zero.symm)))
  have nonzeroB : b.toInt ≠ 0 :=
    fun isZero => either (.inr (Int64.toInt_inj.mp (isZero.trans zero.symm)))
  -- In each branch the test says that the product is beyond one of the bounds;
  -- it cannot be beyond the other.
  have branch : ∀ {test : Prop} [Decidable test],
      (test ↔ ¬ (-2 ^ 63 ≤ a.toInt * b.toInt ∧ a.toInt * b.toInt < 2 ^ 63)) →
      orFail message ((if test then none else some (a * b)).map Int64.toUInt64) =
        fitSigned message (a.toInt * b.toInt) := by
    intro test _ exactly
    apply orFail_signed
    · intro fits
      exact ⟨product fits, if_neg fun outside => exactly.mp outside fits⟩
    · intro outside
      exact if_pos (exactly.mpr outside)
  have positiveA : a > 0 ↔ 0 < a.toInt := by rw [gt_iff_lt, Int64.lt_iff_toInt_lt, zero]
  have positiveB : b > 0 ↔ 0 < b.toInt := by rw [gt_iff_lt, Int64.lt_iff_toInt_lt, zero]
  by_cases signA : a > 0
  · have pa := positiveA.mp signA
    rw [if_pos signA]
    by_cases signB : b > 0
    · have pb := positiveB.mp signB
      rw [if_pos signB]
      apply branch
      have above : 0 < a.toInt * b.toInt := Int.mul_pos pa pb
      rw [gt_iff_lt, Int64.lt_iff_toInt_lt, toInt_max_div b,
        Int.tdiv_eq_ediv_of_nonneg (by norm_num), Int.ediv_lt_iff_lt_mul pb]
      omega
    · have nb : b.toInt < 0 := by
        rw [positiveB] at signB
        omega
      rw [if_neg signB]
      apply branch
      have below : a.toInt * b.toInt < 0 := Int.mul_neg_of_pos_of_neg pa nb
      have turned : b.toInt < -(2 ^ 63 / a.toInt) ↔ 2 ^ 63 / a.toInt < -b.toInt := by omega
      rw [Int64.lt_iff_toInt_lt, toInt_min_div a pa, turned, Int.ediv_lt_iff_lt_mul pa,
        Int.neg_mul, Int.mul_comm b.toInt]
      omega
  · have na : a.toInt < 0 := by
      rw [positiveA] at signA
      omega
    rw [if_neg signA]
    by_cases signB : b > 0
    · have pb := positiveB.mp signB
      rw [if_pos signB]
      apply branch
      have below : a.toInt * b.toInt < 0 := Int.mul_neg_of_neg_of_pos na pb
      have turned : a.toInt < -(2 ^ 63 / b.toInt) ↔ 2 ^ 63 / b.toInt < -a.toInt := by omega
      rw [Int64.lt_iff_toInt_lt, toInt_min_div b pb, turned, Int.ediv_lt_iff_lt_mul pb, Int.neg_mul]
      omega
    · have nb : b.toInt < 0 := by
        rw [positiveB] at signB
        omega
      rw [if_neg signB]
      apply branch
      have above : 0 < a.toInt * b.toInt := Int.mul_pos_of_neg_of_neg na nb
      have turned : (2 ^ 63 - 1 : Int).tdiv b.toInt = -((2 ^ 63 - 1) / (-b.toInt)) := by
        rw [← Int.tdiv_eq_ediv_of_nonneg (by norm_num), Int.tdiv_neg, Int.neg_neg]
      have swapped : a.toInt < -((2 ^ 63 - 1) / (-b.toInt)) ↔
          (2 ^ 63 - 1) / (-b.toInt) < -a.toInt := by omega
      rw [Int64.lt_iff_toInt_lt, toInt_max_div b, turned, swapped,
        Int.ediv_lt_iff_lt_mul (by omega), Int.neg_mul_neg]
      omega

theorem div_eq : (a / b).toUInt64 = (Int64.ofInt (a.toInt.tdiv b.toInt)).toUInt64 := by
  congr 1
  rw [← Int64.toInt_inj, Int64.toInt_div, Int64.toInt_ofInt]

theorem div_checked : (if a = Int64.minValue ∧ b = -1 then
    .error .fault else .ok (a / b).toUInt64 : Except Stop UInt64) =
    if a.toInt = -2 ^ 63 ∧ b.toInt = -1 then .error .fault
    else .ok (Int64.ofInt (a.toInt.tdiv b.toInt)).toUInt64 := by
  have overflow : a = Int64.minValue ∧ b = -1 ↔ a.toInt = -2 ^ 63 ∧ b.toInt = -1 := by
    rw [← Int64.toInt_inj, ← Int64.toInt_inj]
    rfl
  rw [div_eq]
  exact if_congr overflow rfl rfl

theorem neg_eq : (if a = Int64.minValue then failWith .internalError message
    else .ok (-a).toUInt64) =
    fitSigned message (-a.toInt) := by
  have low := a.le_toInt
  have lowest : a = Int64.minValue ↔ a.toInt = -2 ^ 63 := by
    rw [← Int64.toInt_inj]
    rfl
  by_cases least : a = Int64.minValue
  · rw [if_pos least, fitSigned_outside (by rw [lowest.mp least]; omega)]
  · have fits : -2 ^ 63 ≤ -a.toInt ∧ -a.toInt < 2 ^ 63 := by
      have high := a.toInt_lt
      have other : a.toInt ≠ -2 ^ 63 := fun same => least (lowest.mpr same)
      omega
    rw [if_neg least, ← bmod_of_fits fits, ← Int64.toInt_neg, fitSigned_eq]

end Signed

/-- What each opcode that takes two words computes, as an operation of `applyBinary`. -/
def binaryOpcode (op : TokenType) (type : IrType) : Opcode :=
  match op with
  | .plus => Builder.byType type .addI64 .addU64
  | .minus => Builder.byType type .subI64 .subU64
  | .star => Builder.byType type .mulI64 .mulU64
  | .slash => Builder.byType type .divI64 .divU64
  | .percent => Builder.byType type .modI64 .modU64
  | .equal => Builder.byType type .eqI64 .eqU64
  | .notEqual => Builder.byType type .neI64 .neU64
  | .less => Builder.byType type .ltI64 .ltU64
  | .lessEqual => Builder.byType type .leI64 .leU64
  | .greater => Builder.byType type .gtI64 .gtU64
  | .greaterEqual => Builder.byType type .geI64 .geU64
  | .and => .and
  | .or => .or
  | .amp => .bitAnd
  | .pipe => .bitOr
  | _ => .bitXor

section Instructions

variable {values : Values} {instr : Instruction} {event : CanonicalEvent} {a b : UInt64}

theorem binary_eq (first : values (operand instr 0) = some a)
    (second : values (operand instr 1) = some b)
    (compute : UInt64 → UInt64 → Except Stop UInt64) :
    binary values instr compute = (compute a b).map (setValue values instr.result) := by
  unfold binary getVal
  rw [first, second]
  change (compute a b >>= fun value => .ok (setValue values instr.result value)) = _
  cases compute a b <;> rfl

theorem unary_eq (first : values (operand instr 0) = some a)
    (compute : UInt64 → Except Stop UInt64) :
    unary values instr compute = (compute a).map (setValue values instr.result) := by
  unfold unary getVal
  rw [first]
  change (compute a >>= fun value => .ok (setValue values instr.result value)) = _
  cases compute a <;> rfl

theorem ofNat_div : UInt64.ofNat (a.toNat / b.toNat) = a / b := by
  rw [← UInt64.toNat_div, UInt64.ofNat_toNat]

theorem ofNat_mod : UInt64.ofNat (a.toNat % b.toNat) = a % b := by
  rw [← UInt64.toNat_mod, UInt64.ofNat_toNat]

theorem truth_signed {condition : Prop} [Decidable condition] {relation : Int → Int → Bool}
    (same : condition ↔ relation (signed a) (signed b) = true) :
    truth (decide condition) = comparison .i64 relation a b := by
  unfold truth comparison
  rw [if_pos rfl, Bool.eq_iff_iff.mpr (decide_eq_true_iff.trans same)]

theorem truth_unsigned {type : IrType} (isUnsigned : type ≠ .i64)
    {condition : Prop} [Decidable condition]
    {relation : Int → Int → Bool} (same : condition ↔ relation a.toNat b.toNat = true) :
    truth (decide condition) = comparison type relation a b := by
  unfold truth comparison
  rw [if_neg isUnsigned, Bool.eq_iff_iff.mpr (decide_eq_true_iff.trans same)]

theorem execute_typed {op : TokenType} {type : IrType} {signedCode unsignedCode : Opcode}
    (code : instr.opcode = Builder.byType type signedCode unsignedCode)
    (signedCase : instr.opcode = signedCode →
      executeInstruction values instr event =
        (applyBinary op .i64 a b).map (setValue values instr.result))
    (unsignedCase : type ≠ .i64 → instr.opcode = unsignedCode →
      executeInstruction values instr event =
        (applyBinary op type a b).map (setValue values instr.result)) :
    executeInstruction values instr event =
      (applyBinary op type a b).map (setValue values instr.result) := by
  unfold Builder.byType at code
  by_cases isSigned : type = .i64
  · rw [if_pos isSigned] at code
    rw [isSigned]
    exact signedCase code
  · rw [if_neg isSigned] at code
    exact unsignedCase isSigned code

theorem execute_binary {op : TokenType} (known : isBinaryOperator op = true) {type : IrType}
    (code : instr.opcode = binaryOpcode op type) (first : values (operand instr 0) = some a)
    (second : values (operand instr 1) = some b) :
    executeInstruction values instr event =
      (applyBinary op type a b).map (setValue values instr.result) := by
  have words := fun compute => binary_eq first second compute
  cases op
  case plus =>
    apply execute_typed code
    · intro code
      simp only [executeInstruction, code, words, checkedAddI64_eq, applyBinary,
        arithmetic, if_true, signed]
    · intro isUnsigned code
      simp only [executeInstruction, code, words, checkedAddU64_eq, applyBinary,
        arithmetic, isUnsigned, if_false]
  case minus =>
    apply execute_typed code
    · intro code
      simp only [executeInstruction, code, words, checkedSubI64_eq, applyBinary,
        arithmetic, if_true, signed]
    · intro isUnsigned code
      simp only [executeInstruction, code, words, checkedSubU64_eq, applyBinary,
        arithmetic, isUnsigned, if_false]
  case star =>
    apply execute_typed code
    · intro code
      simp only [executeInstruction, code, words, checkedMulI64_eq, applyBinary,
        arithmetic, if_true, signed]
    · intro isUnsigned code
      simp only [executeInstruction, code, words, checkedMulU64_eq, applyBinary,
        arithmetic, isUnsigned, if_false]
  case slash =>
    apply execute_typed code
    · intro code
      simp only [executeInstruction, code, words, applyBinary, quotient,
        if_true, signed, div_checked]
      rfl
    · intro isUnsigned code
      simp only [executeInstruction, code, words, applyBinary, quotient,
        isUnsigned, if_false, ofNat_div]
  case percent =>
    apply execute_typed code
    · intro code
      -- Nothing is read for an opcode that is not implemented.
      simp only [executeInstruction, code, applyBinary, remainder, if_true]
      rfl
    · intro isUnsigned code
      simp only [executeInstruction, code, words, applyBinary, remainder,
        isUnsigned, if_false, ofNat_mod]
  case equal =>
    apply execute_typed code
    · intro code
      simp only [executeInstruction, code, words, applyBinary]
      refine congrArg _ (truth_signed ?_)
      simp [signed, Int64.toInt_inj]
    · intro isUnsigned code
      simp only [executeInstruction, code, words, applyBinary]
      refine congrArg _ (truth_unsigned isUnsigned ?_)
      simp [UInt64.toNat_inj]
  case notEqual =>
    apply execute_typed code
    · intro code
      simp only [executeInstruction, code, words, applyBinary]
      refine congrArg _ (truth_signed ?_)
      simp [signed, Int64.toInt_inj]
    · intro isUnsigned code
      simp only [executeInstruction, code, words, applyBinary]
      refine congrArg _ (truth_unsigned isUnsigned ?_)
      simp [UInt64.toNat_inj]
  case less =>
    apply execute_typed code
    · intro code
      simp only [executeInstruction, code, words, applyBinary]
      refine congrArg _ (truth_signed ?_)
      exact Int64.lt_iff_toInt_lt.trans decide_eq_true_iff.symm
    · intro isUnsigned code
      simp only [executeInstruction, code, words, applyBinary]
      refine congrArg _ (truth_unsigned isUnsigned ?_)
      simp [UInt64.lt_iff_toNat_lt]
  case lessEqual =>
    apply execute_typed code
    · intro code
      simp only [executeInstruction, code, words, applyBinary]
      refine congrArg _ (truth_signed ?_)
      exact Int64.le_iff_toInt_le.trans decide_eq_true_iff.symm
    · intro isUnsigned code
      simp only [executeInstruction, code, words, applyBinary]
      refine congrArg _ (truth_unsigned isUnsigned ?_)
      simp [UInt64.le_iff_toNat_le]
  case greater =>
    apply execute_typed code
    · intro code
      simp only [executeInstruction, code, words, applyBinary]
      refine congrArg _ (truth_signed ?_)
      exact Int64.lt_iff_toInt_lt.trans decide_eq_true_iff.symm
    · intro isUnsigned code
      simp only [executeInstruction, code, words, applyBinary]
      refine congrArg _ (truth_unsigned isUnsigned ?_)
      simp [UInt64.lt_iff_toNat_lt]
  case greaterEqual =>
    apply execute_typed code
    · intro code
      simp only [executeInstruction, code, words, applyBinary]
      refine congrArg _ (truth_signed ?_)
      exact Int64.le_iff_toInt_le.trans decide_eq_true_iff.symm
    · intro isUnsigned code
      simp only [executeInstruction, code, words, applyBinary]
      refine congrArg _ (truth_unsigned isUnsigned ?_)
      simp [UInt64.le_iff_toNat_le]
  case and =>
    simp only [executeInstruction, code, binaryOpcode, words, applyBinary, truth, decide_eq_true_eq]
  case or =>
    simp only [executeInstruction, code, binaryOpcode, words, applyBinary, truth, decide_eq_true_eq]
  case amp => simp only [executeInstruction, code, binaryOpcode, words, applyBinary]
  case pipe => simp only [executeInstruction, code, binaryOpcode, words, applyBinary]
  case caret => simp only [executeInstruction, code, binaryOpcode, words, applyBinary]
  all_goals cases known

def unaryOpcode (op : TokenType) : Opcode := if op = .minus then .negI64 else .not

theorem execute_unary {op : TokenType} (known : isUnaryOperator op = true)
    (code : instr.opcode = unaryOpcode op)
    (first : values (operand instr 0) = some a) :
    executeInstruction values instr event =
      (applyUnary op a).map (setValue values instr.result) := by
  have words := fun compute => unary_eq first compute
  cases op
  case minus =>
    have minus : instr.opcode = .negI64 := code
    simp only [executeInstruction, minus, words, applyUnary, neg_eq, signed]
  case bang =>
    have bang : instr.opcode = .not := code
    simp only [executeInstruction, bang, words, applyUnary, truth, decide_eq_true_eq]
  all_goals cases known

end Instructions

theorem loadColumn_eq (name : Bytes) (event : CanonicalEvent) :
    loadColumnValue (Builder.columnInfo name).1 event =
      UInt64.ofInt (VectorExecutor.columnValue (columnNamed name) event) := by
  have column : (Builder.columnInfo name).1 = UInt32.ofNat (columnNamed name).index := by
    unfold Builder.columnInfo columnNamed
    rw [Builder.resolveColumnInfo_eq]
    cases TypeChecker.resolveColumn name <;> rfl
  rw [column]
  generalize columnNamed name = which
  cases which
  case priceTicks => exact (ofInt_toInt event.priceTicks).symm
  all_goals
    simp only [VectorExecutor.columnValue, ofInt_natCast]
    exact UInt64.ofNat_toNat.symm

end VectorTick.Evaluation
