import VectorTick.Execution.Progress
import VectorTick.Common.CheckedMath

/-! The signed operations of an execution, and whether their results are in range.

The checked functions compare their operands with limits that are signed sums, differences and
quotients themselves. Here each of these is computed as an integer, and is an error where 64 bits
do not hold it. Comparisons and conversions of words compute nothing. -/

set_option autoImplicit false

namespace VectorTick.SignedRange

open Foundation Vts1 Query Ir Evaluation Lowering Progress ReferenceInterpreter

section Checked

variable (a b : Int)

/-- The last line of a checked function. -/
def computed (result : Int) :
    Except Undefined (Option Int) := do return some (← IntType.i64.compute result)

def checkedAddExactly : Except Undefined (Option Int) :=
  if b > 0 then do
    let limit ← IntType.i64.compute (IntType.i64.maximum - b)
    if a > limit then .ok none else computed (a + b)
  else if b < 0 then do
    let limit ← IntType.i64.compute (IntType.i64.minimum - b)
    if a < limit then .ok none else computed (a + b)
  else computed (a + b)

def checkedSubExactly : Except Undefined (Option Int) :=
  if b > 0 then do
    let limit ← IntType.i64.compute (IntType.i64.minimum + b)
    if a < limit then .ok none else computed (a - b)
  else if b < 0 then do
    let limit ← IntType.i64.compute (IntType.i64.maximum + b)
    if a > limit then .ok none else computed (a - b)
  else computed (a - b)

def checkedMulExactly : Except Undefined (Option Int) :=
  if a = 0 ∨ b = 0 then .ok (some 0)
  else if a = 1 then .ok (some b)
  else if b = 1 then .ok (some a)
  else if a > 0 then
    if b > 0 then do
      let limit ← IntType.i64.divide IntType.i64.maximum b
      if a > limit then .ok none else computed (a * b)
    else do
      let limit ← IntType.i64.divide IntType.i64.minimum a
      if b < limit then .ok none else computed (a * b)
  else if b > 0 then do
    let limit ← IntType.i64.divide IntType.i64.minimum b
    if a < limit then .ok none else computed (a * b)
  else do
    let limit ← IntType.i64.divide IntType.i64.maximum b
    if a < limit then .ok none else computed (a * b)

/-- The case of the division: only a divisor of zero is tested for. -/
def divideExactly : Except Undefined (Option Int) :=
  if b = 0 then .ok none else do return some (← IntType.i64.divide a b)

def negateExactly : Except Undefined (Option Int) :=
  if a = IntType.i64.minimum then .ok none else computed (-a)

/-- A result that is reported as an error where it is out of range. -/
def inRange (result : Int) : Option Int := if IntType.i64.Holds result then some result else none

variable {a b}

theorem computed_eq {result : Int} (holds : IntType.i64.Holds result) :
    computed result = .ok (inRange result) := by
  rw [computed, IntType.compute_of_holds holds, CheckedMath.ok_bind, inRange, if_pos holds]
  rfl

theorem guarded_eq {limit result : Int} {bound : Except Undefined Int}
    (fits : bound = .ok limit) {stops : Int → Prop}
    [DecidablePred stops] (sharp : stops limit ↔ ¬ IntType.i64.Holds result) :
    (do
      let limit ← bound
      if stops limit then .ok none else computed result : Except Undefined (Option Int)) =
        .ok (inRange result) := by
  rw [fits, CheckedMath.ok_bind]
  by_cases stopped : stops limit
  · rw [if_pos stopped, inRange, if_neg (sharp.mp stopped)]
  · rw [if_neg stopped]
    exact computed_eq (Decidable.of_not_not fun outside => stopped (sharp.mpr outside))

theorem greatest_divided (positive : 0 < b) :
    IntType.i64.divide IntType.i64.maximum b = .ok ((2 ^ 63 - 1) / b) := by
  have below : (2 ^ 63 - 1) / b ≤ 2 ^ 63 - 1 := Int.ediv_le_self b (by norm_num)
  have above : 0 ≤ (2 ^ 63 - 1) / b := Int.ediv_nonneg (by norm_num) positive.le
  have most : IntType.i64.maximum = 2 ^ 63 - 1 := rfl
  rw [most]
  exact IntType.divide_of_holds positive.ne' (Int.tdiv_eq_ediv_of_nonneg (by norm_num))
    (IntType.holds_i64.mpr (by omega))

theorem least_divided (positive : 0 < b) :
    IntType.i64.divide IntType.i64.minimum b = .ok (-(2 ^ 63 / b)) := by
  have below : (2 ^ 63 : Int) / b ≤ 2 ^ 63 := Int.ediv_le_self b (by norm_num)
  have above : 0 ≤ (2 ^ 63 : Int) / b := Int.ediv_nonneg (by norm_num) positive.le
  refine IntType.divide_of_holds positive.ne' ?_ (IntType.holds_i64.mpr (by omega))
  have least : IntType.i64.minimum = -2 ^ 63 := rfl
  rw [least, Int.neg_tdiv, Int.tdiv_eq_ediv_of_nonneg (by norm_num)]

theorem greatest_divided_neg (negative : b < 0) :
    IntType.i64.divide IntType.i64.maximum b = .ok (-((2 ^ 63 - 1) / -b)) := by
  have below : (2 ^ 63 - 1) / -b ≤ 2 ^ 63 - 1 := Int.ediv_le_self (-b) (by norm_num)
  have above : 0 ≤ (2 ^ 63 - 1) / -b := Int.ediv_nonneg (by norm_num) (by omega)
  refine IntType.divide_of_holds negative.ne ?_ (IntType.holds_i64.mpr (by omega))
  have most : IntType.i64.maximum = 2 ^ 63 - 1 := rfl
  rw [most, ← Int.tdiv_eq_ediv_of_nonneg (by norm_num), Int.tdiv_neg, Int.neg_neg]

/-- A truncated quotient is no farther from zero than the dividend, and equal to its
negation only for minus one. -/
theorem holds_tdiv (holds : IntType.i64.Holds a) (other : ¬ (a = -2 ^ 63 ∧ b = -1)) :
    IntType.i64.Holds (a.tdiv b) := by
  have size : (a.tdiv b).natAbs ≤ a.natAbs := by
    rw [Int.natAbs_tdiv]
    exact Nat.div_le_self _ _
  rw [IntType.holds_i64] at holds ⊢
  by_cases least : a = -2 ^ 63
  · rcases (show b = 0 ∨ b = 1 ∨ 2 ≤ b.natAbs by omega) with rfl | rfl | far
    · rw [Int.tdiv_zero]
      decide
    · rwa [Int.tdiv_one]
    · have half : (a.tdiv b).natAbs ≤ 2 ^ 62 := by
        rw [Int.natAbs_tdiv, least]
        exact (Nat.div_le_div_left far Nat.two_pos).trans (by decide)
      omega
  · omega

section Guards

variable (holdsA : IntType.i64.Holds a) (holdsB : IntType.i64.Holds b)

include holdsA holdsB

theorem checkedAddExactly_eq : checkedAddExactly a b = .ok (inRange (a + b)) := by
  have least : IntType.i64.minimum = -2 ^ 63 := rfl
  have most : IntType.i64.maximum = 2 ^ 63 - 1 := rfl
  rw [IntType.holds_i64] at holdsA holdsB
  unfold checkedAddExactly
  by_cases positive : b > 0
  · rw [if_pos positive]
    refine guarded_eq (IntType.compute_of_holds (IntType.holds_i64.mpr (by omega))) ?_
    rw [IntType.holds_i64]
    omega
  by_cases negative : b < 0
  · rw [if_neg positive, if_pos negative]
    refine guarded_eq (IntType.compute_of_holds (IntType.holds_i64.mpr (by omega))) ?_
    rw [IntType.holds_i64]
    omega
  · rw [if_neg positive, if_neg negative]
    exact computed_eq (IntType.holds_i64.mpr (by omega))

theorem checkedSubExactly_eq : checkedSubExactly a b = .ok (inRange (a - b)) := by
  have least : IntType.i64.minimum = -2 ^ 63 := rfl
  have most : IntType.i64.maximum = 2 ^ 63 - 1 := rfl
  rw [IntType.holds_i64] at holdsA holdsB
  unfold checkedSubExactly
  by_cases positive : b > 0
  · rw [if_pos positive]
    refine guarded_eq (IntType.compute_of_holds (IntType.holds_i64.mpr (by omega))) ?_
    rw [IntType.holds_i64]
    omega
  by_cases negative : b < 0
  · rw [if_neg positive, if_pos negative]
    refine guarded_eq (IntType.compute_of_holds (IntType.holds_i64.mpr (by omega))) ?_
    rw [IntType.holds_i64]
    omega
  · rw [if_neg positive, if_neg negative]
    exact computed_eq (IntType.holds_i64.mpr (by omega))

theorem checkedMulExactly_eq : checkedMulExactly a b = .ok (inRange (a * b)) := by
  unfold checkedMulExactly
  by_cases either : a = 0 ∨ b = 0
  · have nothing : a * b = 0 := Int.mul_eq_zero.mpr either
    rw [if_pos either, nothing, inRange, if_pos IntType.i64.holds_zero]
  rw [if_neg either]
  by_cases oneA : a = 1
  · rw [if_pos oneA, oneA, Int.one_mul, inRange, if_pos holdsB]
  rw [if_neg oneA]
  by_cases oneB : b = 1
  · rw [if_pos oneB, oneB, Int.mul_one, inRange, if_pos holdsA]
  rw [if_neg oneB]
  obtain ⟨nonzeroA, nonzeroB⟩ := not_or.mp either
  by_cases signA : a > 0
  · rw [if_pos signA]
    by_cases signB : b > 0
    · rw [if_pos signB]
      refine guarded_eq (greatest_divided signB) ?_
      have above : 0 < a * b := Int.mul_pos signA signB
      rw [IntType.holds_i64, gt_iff_lt, Int.ediv_lt_iff_lt_mul signB]
      omega
    · have negative : b < 0 := by omega
      rw [if_neg signB]
      refine guarded_eq (least_divided signA) ?_
      have below : a * b < 0 := Int.mul_neg_of_pos_of_neg signA negative
      have turned : b < -(2 ^ 63 / a) ↔ 2 ^ 63 / a < -b := by omega
      rw [IntType.holds_i64, turned, Int.ediv_lt_iff_lt_mul signA, Int.neg_mul, Int.mul_comm b]
      omega
  · have negativeA : a < 0 := by omega
    rw [if_neg signA]
    by_cases signB : b > 0
    · rw [if_pos signB]
      refine guarded_eq (least_divided signB) ?_
      have below : a * b < 0 := Int.mul_neg_of_neg_of_pos negativeA signB
      have turned : a < -(2 ^ 63 / b) ↔ 2 ^ 63 / b < -a := by omega
      rw [IntType.holds_i64, turned, Int.ediv_lt_iff_lt_mul signB, Int.neg_mul]
      omega
    · have negativeB : b < 0 := by omega
      rw [if_neg signB]
      refine guarded_eq (greatest_divided_neg negativeB) ?_
      have above : 0 < a * b := Int.mul_pos_of_neg_of_neg negativeA negativeB
      have turned : a < -((2 ^ 63 - 1) / -b) ↔ (2 ^ 63 - 1) / -b < -a := by omega
      rw [IntType.holds_i64, turned, Int.ediv_lt_iff_lt_mul (by omega), Int.neg_mul_neg]
      omega

end Guards

theorem divideExactly_eq (holds : IntType.i64.Holds a) (other : ¬ (a = -2 ^ 63 ∧ b = -1)) :
    divideExactly a b = .ok (if b = 0 then none else some (a.tdiv b)) := by
  unfold divideExactly
  by_cases zero : b = 0
  · rw [if_pos zero, if_pos zero]
  · have fits : IntType.i64.Holds (a.tdiv b) := holds_tdiv holds other
    rw [if_neg zero, if_neg zero, IntType.divide_of_holds zero rfl fits, CheckedMath.ok_bind]
    rfl

theorem divideExactly_overflow : divideExactly (-2 ^ 63) (-1) = .error .overflow := rfl

theorem negateExactly_eq (holds : IntType.i64.Holds a) : negateExactly a = .ok (inRange (-a)) := by
  have least : IntType.i64.minimum = -2 ^ 63 := rfl
  rw [IntType.holds_i64] at holds
  unfold negateExactly
  by_cases lowest : a = IntType.i64.minimum
  · have outside : ¬ IntType.i64.Holds (-a) := by
      rw [IntType.holds_i64]
      omega
    rw [if_pos lowest, inRange, if_neg outside]
  · rw [if_neg lowest]
    exact computed_eq (IntType.holds_i64.mpr (by omega))

end Checked

/-- The result of a checked function as the word that is stored for it. -/
def reported (message : String) : Option Int → Except Stop UInt64
  | none => failWith .internalError message
  | some result => .ok (Int64.ofInt result).toUInt64

def binaryExactly (values : Values) (instr : Instruction) (message : String)
    (compute : Int → Int → Except Undefined (Option Int)) : Except Undefined (Except Stop Values) :=
  match getVal values (operand instr 0), getVal values (operand instr 1) with
  | .ok lhs, .ok rhs => do
    let result ← compute (signed lhs) (signed rhs)
    return (reported message result).map (setValue values instr.result)
  | .error stop, _ => .ok (.error stop)
  | .ok _, .error stop => .ok (.error stop)

def unaryExactly (values : Values) (instr : Instruction) (message : String)
    (compute : Int → Except Undefined (Option Int)) : Except Undefined (Except Stop Values) :=
  match getVal values (operand instr 0) with
  | .ok val => do
    let result ← compute (signed val)
    return (reported message result).map (setValue values instr.result)
  | .error stop => .ok (.error stop)

/-- An instruction with its signed operations computed as integers; the other opcodes have none. -/
def executeInstructionExactly (values : Values) (instr : Instruction) (event : CanonicalEvent) :
    Except Undefined (Except Stop Values) :=
  match instr.opcode with
  | .addI64 => binaryExactly values instr "Addition overflow" checkedAddExactly
  | .subI64 => binaryExactly values instr "Subtraction underflow" checkedSubExactly
  | .mulI64 => binaryExactly values instr "Multiplication overflow" checkedMulExactly
  | .divI64 => binaryExactly values instr "Division by zero" divideExactly
  | .negI64 => unaryExactly values instr "Negation overflow" negateExactly
  | _ => .ok (executeInstruction values instr event)

def binaryResult (values : Values) (instr : Instruction) (op : Int → Int → Int) : Option Int := do
  let a ← values (operand instr 0)
  let b ← values (operand instr 1)
  return op (signed a) (signed b)

/-- The mathematical result of a signed instruction whose operands are there. -/
def exactResult (values : Values) (instr : Instruction) : Option Int :=
  match instr.opcode with
  | .addI64 => binaryResult values instr (· + ·)
  | .subI64 => binaryResult values instr (· - ·)
  | .mulI64 => binaryResult values instr (· * ·)
  | .divI64 => binaryResult values instr Int.tdiv
  | .negI64 => (values (operand instr 0)).map fun a => -signed a
  | _ => none

/-- No operation of the step is out of range, and a result that would be is reported as an error. -/
def StepInRange (event : CanonicalEvent) (step : Values × Instruction) : Prop :=
  executeInstructionExactly step.1 step.2 event = .ok (executeInstruction step.1 step.2 event) ∧
    ∀ result, exactResult step.1 step.2 = some result → ¬ IntType.i64.Holds result →
      ∃ message, executeInstruction step.1 step.2 event = failWith .internalError message

/-- The quotient of the least number by minus one. -/
def Overflows (values : Values) (instr : Instruction) : Prop :=
  instr.opcode = .divI64 ∧ ∃ a b, values (operand instr 0) = some a ∧
    values (operand instr 1) = some b ∧
    signed a = -2 ^ 63 ∧ signed b = -1

theorem holds_signed (word : UInt64) : IntType.i64.Holds (signed word) :=
  IntType.holds_i64.mpr ⟨word.toInt64.le_toInt, word.toInt64.toInt_lt⟩

theorem reported_inRange (message : String) (result : Int) :
    reported message (inRange result) = fitSigned message result := by
  unfold inRange fitSigned
  by_cases holds : IntType.i64.Holds result
  · rw [if_pos holds, if_pos (IntType.holds_i64.mp holds)]
    rfl
  · rw [if_neg holds, if_neg fun fits => holds (IntType.holds_i64.mpr fits)]
    rfl

theorem fitSigned_error {message : String} {result : Int} (outside : ¬ IntType.i64.Holds result) :
    fitSigned message result = failWith .internalError message :=
  fitSigned_outside fun fits => outside (IntType.holds_i64.mpr fits)

theorem signed_arithmetic (message : String) (op : Int → Int → Int) (a b : UInt64) :
    arithmetic .i64 message op a b = fitSigned message (op (signed a) (signed b)) := by
  rw [arithmetic, if_pos rfl]

theorem combineBinary_missing {op : TokenType} {type : IrType} {a b : Option UInt64}
    (implemented : ¬ (op = .percent ∧ type = .i64)) (missing : a = none ∨ b = none) :
    combineBinary op type a b = undefinedValue := by
  rcases missing with rfl | rfl
  · exact if_neg implemented
  · cases a with
    | none => exact if_neg implemented
    | some a => exact if_neg implemented

section Steps

variable {event : CanonicalEvent} {values : Values} {instr : Instruction}
  {message : String} {op : TokenType}

/-- A signed operation of two operands whose checked function computes the
operation of the interpreter. -/
theorem binary_exactly (known : isBinaryOperator op = true) (implemented : op ≠ .percent)
    (code : instr.opcode = binaryOpcode op .i64)
    {compute : Int → Int → Except Undefined (Option Int)}
    (computes : ∀ a b, values (operand instr 0) = some a → values (operand instr 1) = some b →
      (compute (signed a) (signed b)).map (reported message) = .ok (applyBinary op .i64 a b)) :
    binaryExactly values instr message compute = .ok (executeInstruction values instr event) := by
  unfold binaryExactly getVal
  rcases first : values (operand instr 0) with _ | a
  · rw [execute_combineBinary known code first rfl,
      combineBinary_missing (fun both => implemented both.1) (.inl rfl)]
    rfl
  rcases second : values (operand instr 1) with _ | b
  · rw [execute_combineBinary known code first second,
      combineBinary_missing (fun both => implemented both.1) (.inr rfl)]
    rfl
  · have same := computes a b first second
    rw [execute_binary known code first second]
    dsimp only
    cases result : compute (signed a) (signed b) with
    | error undefined =>
      rw [result] at same
      cases same
    | ok result' =>
      rw [result] at same
      rw [CheckedMath.ok_bind, Except.ok.inj same]
      rfl

theorem stepInRange_binary (known : isBinaryOperator op = true) (implemented : op ≠ .percent)
    (code : instr.opcode = binaryOpcode op .i64) {exactly : Int → Int → Int}
    (applies : ∀ a b, applyBinary op .i64 a b = fitSigned message (exactly (signed a) (signed b)))
    {compute : Int → Int → Except Undefined (Option Int)}
    (computes : ∀ a b, IntType.i64.Holds a → IntType.i64.Holds b →
      compute a b = .ok (inRange (exactly a b)))
    (executes : executeInstructionExactly values instr event =
      binaryExactly values instr message compute)
    (exact_ : exactResult values instr = binaryResult values instr exactly) :
    StepInRange event (values, instr) := by
  refine ⟨executes.trans (binary_exactly known implemented code fun a b _ _ => ?_),
    fun result found outside => ?_⟩
  · rw [computes _ _ (holds_signed a) (holds_signed b), applies, ← reported_inRange]
    rfl
  · rw [exact_] at found
    obtain ⟨a, first, rest⟩ := Option.bind_eq_some_iff.mp found
    obtain ⟨b, second, same⟩ := Option.bind_eq_some_iff.mp rest
    rw [← Option.some.inj same] at outside
    refine ⟨message, ?_⟩
    rw [execute_binary known code first second, applies, fitSigned_error outside]
    rfl

theorem stepInRange_divide (code : instr.opcode = .divI64) (fits : ¬ Overflows values instr) :
    StepInRange event (values, instr) := by
  have executes : executeInstructionExactly values instr event =
      binaryExactly values instr "Division by zero" divideExactly := by
    rw [executeInstructionExactly, code]
  have other : ∀ a b, values (operand instr 0) = some a → values (operand instr 1) = some b →
      ¬ (signed a = -2 ^ 63 ∧ signed b = -1) :=
        fun a b first second both => fits ⟨code, a, b, first, second, both⟩
  refine ⟨executes.trans
    (@binary_exactly event values instr _ .slash rfl (by decide) code _ fun a b first second => ?_),
    fun result found outside => ?_⟩
  · have zero : signed b = 0 ↔ b = 0 := by
      constructor
      · intro isZero
        have word : b.toInt64 = 0 := Int64.toInt_inj.mp isZero
        rw [← UInt64.toUInt64_toInt64 b, word]
        rfl
      · rintro rfl
        rfl
    rw [divideExactly_eq (holds_signed a) (other a b first second), applyBinary, quotient]
    by_cases isZero : b = 0
    · rw [if_pos isZero, if_pos (zero.mpr isZero)]
      rfl
    · rw [if_neg isZero, if_neg fun same => isZero (zero.mp same), if_pos rfl,
        if_neg (other a b first second)]
      rfl
  · rw [exactResult, code] at found
    obtain ⟨a, first, rest⟩ := Option.bind_eq_some_iff.mp found
    obtain ⟨b, second, same⟩ := Option.bind_eq_some_iff.mp rest
    rw [← Option.some.inj same] at outside
    exact absurd (holds_tdiv (holds_signed a) (other a b first second)) outside

theorem stepInRange_negate (code : instr.opcode = .negI64) : StepInRange event (values, instr) := by
  have executes : executeInstructionExactly values instr event =
      unaryExactly values instr "Negation overflow" negateExactly := by
    rw [executeInstructionExactly, code]
  have minus : isUnaryOperator .minus = true := rfl
  refine ⟨executes.trans ?_, fun result found outside => ?_⟩
  · unfold unaryExactly getVal
    rcases first : values (operand instr 0) with _ | a
    · rw [execute_combineUnary minus code first]
      rfl
    · rw [execute_unary minus code first, applyUnary, ← reported_inRange]
      dsimp only
      rw [negateExactly_eq (holds_signed a), CheckedMath.ok_bind]
      rfl
  · rw [exactResult, code] at found
    obtain ⟨a, first, same⟩ := Option.map_eq_some_iff.mp found
    rw [← same] at outside
    refine ⟨"Negation overflow", ?_⟩
    rw [execute_unary minus code first, applyUnary, fitSigned_error outside]
    rfl

/-- The opcodes with signed operations. -/
def isSigned : Opcode → Bool
  | .addI64 | .subI64 | .mulI64 | .divI64 | .negI64 => true
  | _ => false

theorem stepInRange_unsigned (other : isSigned instr.opcode = false) :
    StepInRange event (values, instr) := by
  have executes : executeInstructionExactly values instr event =
      .ok (executeInstruction values instr event) := by
    unfold executeInstructionExactly
    cases op : instr.opcode <;> rw [op] at other <;> first | rfl | cases other
  have nothing : exactResult values instr = none := by
    unfold exactResult
    cases op : instr.opcode <;> rw [op] at other <;> first | rfl | cases other
  refine ⟨executes, fun result found => ?_⟩
  rw [nothing] at found
  cases found

theorem binaryExactly_overflow {a b : UInt64} (first : values (operand instr 0) = some a)
    (second : values (operand instr 1) = some b) (least : signed a = -2 ^ 63)
    (minusOne : signed b = -1) :
    binaryExactly values instr message divideExactly = .error .overflow := by
  unfold binaryExactly getVal
  rw [first, second]
  dsimp only
  rw [least, minusOne, divideExactly_overflow]
  rfl

theorem stepInRange_iff (step : Values × Instruction) : StepInRange event step ↔
    ¬ Overflows step.1 step.2 := by
  obtain ⟨values, instr⟩ := step
  constructor
  · rintro ⟨executes, -⟩ ⟨code, a, b, first, second, least, minusOne⟩
    dsimp only at executes code first second
    rw [executeInstructionExactly, code] at executes
    exact absurd ((binaryExactly_overflow first second least minusOne).symm.trans executes)
      (fun same => by cases same)
  · intro fits
    cases op : instr.opcode
    case addI64 =>
      exact @stepInRange_binary event values instr _ .plus rfl (by decide) op _
        (signed_arithmetic "Addition overflow" (· + ·)) _
        (fun _ _ => checkedAddExactly_eq) (by rw [executeInstructionExactly, op])
          (by rw [exactResult, op])
    case subI64 =>
      exact @stepInRange_binary event values instr _ .minus rfl (by decide) op _
        (signed_arithmetic "Subtraction underflow" (· - ·)) _
        (fun _ _ => checkedSubExactly_eq) (by rw [executeInstructionExactly, op])
          (by rw [exactResult, op])
    case mulI64 =>
      exact @stepInRange_binary event values instr _ .star rfl (by decide) op _
        (signed_arithmetic "Multiplication overflow" (· * ·)) _
        (fun _ _ => checkedMulExactly_eq) (by rw [executeInstructionExactly, op])
          (by rw [exactResult, op])
    case divI64 => exact stepInRange_divide op fits
    case negI64 => exact stepInRange_negate op
    all_goals exact stepInRange_unsigned (by rw [op]; rfl)

end Steps

/-- The instruction ends its block. -/
def leavesBlock (instr : Instruction) : Bool :=
  match instr.opcode, instr.payload with
  | .return_, _ | .jump, .jump _ | .branch, .branch _ _ => true
  | _, _ => false

/-- The instructions that are executed in a block, each with the values it finds. -/
def blockSteps (event : CanonicalEvent) : List Instruction → Values → List (Values × Instruction)
  | [], _ => []
  | instr :: rest, values =>
    (values, instr) :: if leavesBlock instr then
      [] else match executeInstruction values instr event with
      | .error _ => []
      | .ok after => blockSteps event rest after

/-- The steps of `executeBlocks`. -/
def blocksSteps (function : Function) (event : CanonicalEvent) : Nat → Option Nat → Values →
    List (Values × Instruction)
  | 0, _, _ => []
  | fuel + 1, current, values =>
    match current.bind fun id => function.blocks[id]? with
    | none => []
    | some block => blockSteps event block.instructions values ++
      match executeBlock event block.instructions values with
      | .ok (.next target, after) => blocksSteps function event fuel target after
      | _ => []

def executeSteps (function : Function) (fuel : Nat) (event : CanonicalEvent) :
    List (Values × Instruction) :=
  blocksSteps function event fuel (some 0) (initialValues function)

/-- Constants and loads carry what they need. -/
def Formed (instr : Instruction) : Prop :=
  match instr.opcode with
  | .constI64 | .constU64 | .constU32 | .constBool => ∃ constant, instr.payload = .constant constant
  | .loadColumn => ∃ id, instr.payload = .column id
  | _ => True

section Faults

variable {event : CanonicalEvent} {values : Values} {instr : Instruction}

theorem ok_ne_fault {α : Type} (value : α) : (.ok value : Except Stop α) ≠ .error .fault :=
  fun same => by cases same

theorem failWith_ne_fault {α : Type} (code : StatusCode) (message : String) :
    (failWith code message : Except Stop α) ≠ .error .fault := fun same => by cases same

theorem getVal_ne_fault (id : ValueId) : getVal values id ≠ .error .fault := by
  unfold getVal
  cases values id with
  | none => exact failWith_ne_fault _ _
  | some value => exact ok_ne_fault value

theorem bind_ne_fault {α β : Type} {first : Except Stop α} {next : α → Except Stop β}
    (head : first ≠ .error .fault)
    (rest : ∀ value, next value ≠ .error .fault) : (first >>= next) ≠ .error .fault := by
  cases first with
  | error stop =>
    intro fault
    have same : (.error stop : Except Stop β) = .error .fault := fault
    cases same
    exact head rfl
  | ok value => exact rest value

theorem binary_ne_fault {compute : UInt64 → UInt64 → Except Stop UInt64}
    (fine : ∀ a b, compute a b ≠ .error .fault) :
    binary values instr compute ≠ .error .fault :=
  bind_ne_fault (getVal_ne_fault _) fun a => bind_ne_fault (getVal_ne_fault _) fun b =>
    bind_ne_fault (fine a b) fun _ => ok_ne_fault _

theorem unary_ne_fault {compute : UInt64 → Except Stop UInt64}
    (fine : ∀ a, compute a ≠ .error .fault) :
    unary values instr compute ≠ .error .fault :=
  bind_ne_fault (getVal_ne_fault _) fun a => bind_ne_fault (fine a) fun _ => ok_ne_fault _

theorem orFail_ne_fault (message : String) (result : Option UInt64) :
    orFail message result ≠ .error .fault := by
  cases result with
  | none => exact failWith_ne_fault _ _
  | some value => exact ok_ne_fault value

theorem failUnless_ne_fault {condition : Prop} [Decidable condition] (code : StatusCode)
    (message : String) (value : UInt64) :
    (if condition then failWith code message else .ok value : Except Stop UInt64) ≠
      .error .fault := by
  by_cases fails : condition
  · rw [if_pos fails]
    exact failWith_ne_fault code message
  · rw [if_neg fails]
    exact ok_ne_fault value

theorem execute_ne_fault (formed : Formed instr) (other : instr.opcode ≠ .divI64) :
    executeInstruction values instr event ≠ .error .fault := by
  unfold Formed at formed
  unfold executeInstruction
  cases op : instr.opcode <;> rw [op] at formed other
  case divI64 => exact absurd rfl other
  case constI64 | constU64 | constU32 | constBool =>
    obtain ⟨constant, payload⟩ := formed
    rw [payload]
    exact ok_ne_fault _
  case loadColumn =>
    obtain ⟨id, payload⟩ := formed
    rw [payload]
    exact ok_ne_fault _
  case select =>
    exact bind_ne_fault (getVal_ne_fault _) fun _ => bind_ne_fault (getVal_ne_fault _) fun _ =>
      bind_ne_fault (getVal_ne_fault _) fun _ => ok_ne_fault _
  case divU64 | modU64 => exact binary_ne_fault fun _ _ => failUnless_ne_fault _ _ _
  case negI64 => exact unary_ne_fault fun _ => failUnless_ne_fault _ _ _
  all_goals first
    | exact binary_ne_fault fun _ _ => orFail_ne_fault _ _
    | exact binary_ne_fault fun _ _ => ok_ne_fault _
    | exact unary_ne_fault fun _ => ok_ne_fault _
    | exact ok_ne_fault _
    | exact failWith_ne_fault _ _

theorem quotient_fault (a b : UInt64) : quotient .i64 a b = .error .fault ↔
    signed a = -2 ^ 63 ∧ signed b = -1 := by
  have well := endsWell_quotient .i64 a b
  unfold quotient at well ⊢
  by_cases overflows : signed a = -2 ^ 63 ∧ signed b = -1
  · have nonzero : b ≠ 0 := by
      rintro rfl
      exact absurd overflows.2 (by decide)
    rw [if_neg nonzero, if_pos rfl, if_pos overflows]
    exact iff_of_true rfl overflows
  · refine iff_of_false (fun fault => ?_) overflows
    rw [fault] at well
    exact absurd (well.mpr fun both => overflows both.2) Bool.false_ne_true

theorem execute_fault_iff (formed : Formed instr) :
    executeInstruction values instr event = .error .fault ↔ Overflows values instr := by
  by_cases divides : instr.opcode = .divI64
  · have code : instr.opcode = binaryOpcode .slash .i64 := divides
    have known : isBinaryOperator .slash = true := rfl
    constructor
    · intro fault
      have implemented : ¬ (TokenType.slash = .percent ∧ IrType.i64 = .i64) :=
        fun both => absurd both.1 (by decide)
      rcases first : values (operand instr 0) with _ | a
      · rw [execute_combineBinary known code first rfl,
          combineBinary_missing implemented (.inl rfl)] at fault
        cases fault
      rcases second : values (operand instr 1) with _ | b
      · rw [execute_combineBinary known code first second,
          combineBinary_missing implemented (.inr rfl)] at fault
        cases fault
      · rw [execute_binary known code first second, applyBinary] at fault
        refine ⟨divides, a, b, first, second, (quotient_fault a b).mp ?_⟩
        cases computed : quotient .i64 a b with
        | error stop =>
          rw [computed] at fault
          cases fault
          rfl
        | ok value =>
          rw [computed] at fault
          cases fault
    · rintro ⟨-, a, b, first, second, both⟩
      rw [execute_binary known code first second, applyBinary, (quotient_fault a b).mpr both]
      rfl
  · exact iff_of_false (execute_ne_fault formed divides) fun overflows => divides overflows.1

-- An instruction that leaves its block has no signed operation.

theorem leavesBlock_iff : leavesBlock instr = true ↔ instr.opcode = .return_ ∨
    (instr.opcode = .jump ∧ ∃ target, instr.payload = .jump target) ∨
    (instr.opcode = .branch ∧ ∃ trueBlock falseBlock, instr.payload =
      .branch trueBlock falseBlock) := by
  unfold leavesBlock
  cases op : instr.opcode
  case jump | branch => cases instr.payload <;> simp
  all_goals simp

theorem executeBlock_leaves (leaves : leavesBlock instr = true) (rest : List Instruction) :
    executeBlock event (instr :: rest) values ≠ .error .fault := by
  rcases leavesBlock_iff.mp leaves with op | ⟨op, target, load⟩ | ⟨op, trueBlock, falseBlock, load⟩
  · rw [executeBlock, op]
    dsimp only
    cases instr.operands with
    | nil => exact ok_ne_fault _
    | cons id others =>
      dsimp only
      cases values id with
      | none => exact failWith_ne_fault _ _
      | some value => exact ok_ne_fault _
  · rw [executeBlock, op, load]
    exact ok_ne_fault _
  · rw [executeBlock, op, load]
    dsimp only
    cases values (operand instr 0) with
    | none => exact failWith_ne_fault _ _
    | some cond => exact ok_ne_fault _

theorem not_overflows_leaves (leaves : leavesBlock instr = true) : ¬ Overflows values instr := by
  rintro ⟨divides, -⟩
  rcases leavesBlock_iff.mp leaves with op | ⟨op, -⟩ | ⟨op, -⟩ <;> rw [divides] at op <;> cases op

theorem executeBlock_stays (stays : leavesBlock instr = false) (rest : List Instruction) :
    executeBlock event (instr :: rest) values =
      executeInstruction values instr event >>= executeBlock event rest := by
  have other := fun leaves => Bool.false_ne_true (stays.symm.trans (leavesBlock_iff.mpr leaves))
  by_cases jumps : instr.opcode = .jump
  · cases load : instr.payload with
    | jump target => exact absurd (.inr (.inl ⟨jumps, target, load⟩)) other
    | none | column | constant | branch =>
      rw [executeBlock, jumps, load]
  by_cases branches : instr.opcode = .branch
  · cases load : instr.payload with
    | branch trueBlock falseBlock =>
      exact absurd (.inr (.inr ⟨branches, trueBlock, falseBlock, load⟩)) other
    | none | column | constant | jump =>
      rw [executeBlock, branches, load]
  · exact executeBlock_straight ⟨fun returns => other (.inl returns), jumps, branches⟩ rest values

theorem blockSteps_fault_iff {code : List Instruction}
    (formed : ∀ instr ∈ code, Formed instr) (values : Values) :
    executeBlock event code values = .error .fault ↔
      ∃ step ∈ blockSteps event code values, Overflows step.1 step.2 := by
  induction code generalizing values with
  | nil =>
    exact iff_of_false (ok_ne_fault _) fun ⟨_, listed, _⟩ => absurd listed List.not_mem_nil
  | cons instr rest ih =>
    have first := @execute_fault_iff event values instr (formed instr List.mem_cons_self)
    have later := ih fun other listed => formed other (List.mem_cons_of_mem _ listed)
    rw [blockSteps, List.exists_mem_cons_iff]
    cases leaves : leavesBlock instr with
    | true =>
      refine iff_of_false (executeBlock_leaves leaves rest) ?_
      rintro (overflows | ⟨_, listed, -⟩)
      · exact not_overflows_leaves leaves overflows
      · exact absurd listed List.not_mem_nil
    | false =>
      rw [executeBlock_stays leaves, if_neg Bool.false_ne_true]
      cases executed : executeInstruction values instr event with
      | error stop =>
        rw [executed] at first
        refine Iff.trans ?_
          (first.trans (or_iff_left fun ⟨_, listed, _⟩ => absurd listed List.not_mem_nil).symm)
        exact ⟨fun fault => by cases fault; rfl, fun fault => by cases fault; rfl⟩
      | ok after =>
        rw [executed] at first
        rw [ok_bind, later after]
        exact (or_iff_right fun overflows => ok_ne_fault _ (first.mpr overflows)).symm

end Faults

/-- A function whose instructions are formed. -/
def FormedFunction (function : Function) : Prop :=
  ∀ block ∈ function.blocks, ∀ instr ∈ block.instructions, Formed instr

theorem blocksSteps_fault_iff {function : Function} (formed : FormedFunction function)
    (event : CanonicalEvent) (fuel : Nat)
    (current : Option Nat) (values : Values) :
    executeBlocks function event fuel current values = .error .fault ↔
      ∃ step ∈ blocksSteps function event fuel current values, Overflows step.1 step.2 := by
  have nothing : ¬ ∃ step ∈ ([] : List (Values × Instruction)), Overflows step.1 step.2 :=
    fun ⟨_, listed, _⟩ => absurd listed List.not_mem_nil
  induction fuel generalizing current values with
  | zero => exact iff_of_false (fun same => by cases same) nothing
  | succ fuel ih =>
    unfold executeBlocks blocksSteps
    cases found : current.bind fun id => function.blocks[id]? with
    | none => exact iff_of_false (failWith_ne_fault _ _) nothing
    | some block =>
      have inside : block ∈ function.blocks := by
        obtain ⟨id, -, at_⟩ := Option.bind_eq_some_iff.mp found
        exact List.mem_of_getElem? at_
      have steps := @blockSteps_fault_iff event block.instructions (formed block inside) values
      dsimp only
      cases executed : executeBlock event block.instructions values with
      | error stop =>
        rw [executed] at steps
        dsimp only
        rw [List.append_nil, ← steps]
        exact ⟨fun fault => by cases fault; rfl, fun fault => by cases fault; rfl⟩
      | ok found =>
        obtain ⟨exit, after⟩ := found
        rw [executed] at steps
        have inRange := fun overflows => ok_ne_fault _ (steps.mpr overflows)
        rw [ok_bind]
        cases exit with
        | returned value =>
          dsimp only
          rw [List.append_nil]
          exact iff_of_false (ok_ne_fault _) inRange
        | next target =>
          dsimp only
          simp only [List.mem_append, or_and_right, exists_or]
          exact (ih target after).trans (or_iff_right inRange).symm

/-- A step of the builder that appends formed instructions only. -/
def KeepsFormed {α : Type} (build : Builder.Build α) : Prop :=
  ∀ builder, FormedFunction builder.function → FormedFunction (build builder).2.function

section Building

variable {α β : Type}

theorem KeepsFormed.pure (value : α) : KeepsFormed (Pure.pure value) := fun _ formed => formed

theorem KeepsFormed.bind {first : Builder.Build α} {next : α → Builder.Build β}
    (head : KeepsFormed first)
    (rest : ∀ value, KeepsFormed (next value)) : KeepsFormed (first >>= next) :=
  fun builder formed => rest (first builder).1 (first builder).2 (head builder formed)

theorem KeepsFormed.append {instruction : Instruction} (new : Formed instruction) :
    KeepsFormed (Builder.append instruction) := by
  intro builder formed block inside instr listed
  obtain ⟨place, at_⟩ := List.mem_iff_getElem?.mp inside
  change (builder.function.blocks.modify builder.currentBlock fun block =>
    ⟨block.instructions ++ [instruction]⟩)[place]? = _ at at_
  rw [List.getElem?_modify] at at_
  obtain ⟨old, there, same⟩ := Option.map_eq_some_iff.mp at_
  have before := formed old (List.mem_of_getElem? there)
  by_cases current : builder.currentBlock = place
  · rw [if_pos current] at same
    subst same
    rcases List.mem_append.mp listed with early | last
    · exact before instr early
    · rw [List.mem_singleton.mp last]
      exact new
  · rw [if_neg current] at same
    subst same
    exact before instr listed

theorem KeepsFormed.define {instruction : ValueId → Instruction}
    (new : ∀ result, Formed (instruction result)) :
    KeepsFormed (Builder.define instruction) :=
  fun builder formed => KeepsFormed.append (new builder.function.nextValueId) _ formed

theorem lowerBinary_keepsFormed (op : TokenType) (lhs rhs : ValueId) (type : IrType) :
    KeepsFormed (Builder.lowerBinary op lhs rhs type) := by
  by_cases known : isBinaryOperator op = true
  · obtain ⟨resultType, lowered⟩ := lowerBinary_eq known type
    rw [lowered]
    refine KeepsFormed.define fun result => ?_
    unfold Formed binaryOpcode Builder.byType
    by_cases isSigned : type = .i64
    · simp only [isSigned, if_true]
      cases op <;> trivial
    · simp only [isSigned, if_false]
      cases op <;> trivial
  · cases op <;> first | exact KeepsFormed.pure _ | exact absurd rfl known

theorem lowerUnary_keepsFormed (op : TokenType) (operand : ValueId) :
    KeepsFormed (Builder.lowerUnary op operand) := by
  cases op <;> first | exact KeepsFormed.pure _ | exact KeepsFormed.define fun _ => trivial

theorem formed_aggregate {instr : Instruction} (aggregate : instr.opcode.isAggregate = true) :
    Formed instr := by
  unfold Formed
  cases op : instr.opcode <;> rw [op] at aggregate <;> trivial

theorem createAggregate_keepsFormed (fname : Bytes) (arg : ValueId) (type : IrType) :
    KeepsFormed (Builder.createAggregate fname arg type) := by
  by_cases aggregate : isAggregate fname
  · obtain ⟨op, isAggregateOp, lowered⟩ := createAggregate_eq aggregate type
    rw [lowered]
    exact KeepsFormed.define fun _ => formed_aggregate isAggregateOp
  · rw [createAggregate_other aggregate]
    exact KeepsFormed.pure _

mutual

theorem lowerExpression_keepsFormed : (e : Expression) → KeepsFormed (Builder.lowerExpression e)
  | .literal value _ _ => by
    rw [Builder.lowerExpression]
    have constant : ∀ result, Formed (.constOp (.u64 value) result) := fun _ => ⟨.u64 value, rfl⟩
    exact KeepsFormed.define constant
  | .columnRef name _ _ => by
    rw [Builder.lowerExpression]
    obtain ⟨columnId, type⟩ := Builder.columnInfo name
    have loads : ∀ row result, Formed (.loadColumnOp columnId row result type) :=
      fun _ _ => ⟨columnId, rfl⟩
    exact KeepsFormed.bind (fun _ formed => formed) fun row => KeepsFormed.define (loads row)
  | .binaryOp op left right _ _ => by
    rw [Builder.lowerExpression]
    exact (lowerExpression_keepsFormed left).bind fun lhs =>
      (lowerExpression_keepsFormed right).bind fun rhs =>
      lowerBinary_keepsFormed op lhs rhs _
  | .unaryOp op operand _ _ => by
    rw [Builder.lowerExpression]
    exact (lowerExpression_keepsFormed operand).bind fun value => lowerUnary_keepsFormed op value
  | .functionCall name args _ _ => by
    rw [Builder.lowerExpression]
    by_cases count : name.map toLower = nameBytes "count"
    · rw [if_pos count]
      have counts : ∀ row result, Formed (.aggregateOp .count row result .u64) :=
        fun _ _ => formed_aggregate rfl
      exact KeepsFormed.bind (fun _ formed => formed) fun row => KeepsFormed.define (counts row)
    · rw [if_neg count]
      exact lowerArgument_keepsFormed (name.map toLower) args

theorem lowerArgument_keepsFormed (fname : Bytes) : (args : List Expression) →
    KeepsFormed (Builder.lowerArgument fname args)
  | [] => KeepsFormed.pure _
  | arg :: _ => by
    rw [Builder.lowerArgument]
    exact (lowerExpression_keepsFormed arg).bind fun value =>
      createAggregate_keepsFormed fname value _

end

end Building

/-- The expression that a statement is lowered to: its aggregate call, its `WHERE`,
its first projection, or one. -/
def lowered (stmt : QueryStmt) : Expression :=
  match Builder.aggregateCall stmt with
  | some (name, args) => .functionCall name args 0 0
  | none =>
    match stmt.whereExpr with
    | some cond => cond
    | none => (stmt.projections.head?.bind SelectItem.expr).getD (.literal 1 0 0)

theorem lowerStatement_lowered (stmt : QueryStmt) :
    Builder.lowerStatement stmt =
      Builder.lowerExpression (lowered stmt) >>= Builder.createReturn := by
  unfold Builder.lowerStatement lowered
  cases Builder.aggregateCall stmt with
  | some call =>
    obtain ⟨name, args⟩ := call
    dsimp only
    rw [Builder.lowerExpression]
    by_cases count : name.map toLower = nameBytes "count"
    · rw [if_pos count, if_pos count]
      rfl
    · rw [if_neg count, if_neg count]
  | none =>
    cases stmt.whereExpr with
    | some cond => rfl
    | none =>
      dsimp only
      cases stmt.projections.head?.bind SelectItem.expr with
      | some e => rfl
      | none => rw [Option.getD_none, Builder.lowerExpression]

theorem buildFromQuery_formed (stmt : QueryStmt) :
    FormedFunction (Builder.buildFromQuery stmt) := by
  have returns : ∀ value, KeepsFormed (Builder.createReturn value) :=
    fun value => KeepsFormed.append trivial
  have whole := (lowerExpression_keepsFormed (lowered stmt)).bind returns
  rw [← lowerStatement_lowered] at whole
  refine whole entered fun block inside instr listed => ?_
  rw [List.mem_singleton.mp inside] at listed
  exact absurd listed List.not_mem_nil

theorem parsed_lowered {stmt : QueryStmt} (parsed : Parser.ParsedStmt stmt) :
    Parsed (lowered stmt) := by
  -- What is lowered beside an aggregate call takes the place of a `WHERE`.
  have beside : ∀ cond, Parsed cond → Parsed (executed { stmt with whereExpr := some cond } cond) :=
    fun cond all =>
    parsed_executed { parsed with whereExpr := fun e same => Option.some.inj same ▸ all } rfl
  cases filter : stmt.whereExpr with
  | some cond =>
    have same : lowered stmt = executed { stmt with whereExpr := some cond } cond := by
      unfold executed lowered
      rw [filter]
      rfl
    rw [same]
    exact beside cond (parsed.whereExpr cond filter)
  | none =>
    have first : Parsed ((stmt.projections.head?.bind SelectItem.expr).getD (.literal 1 0 0)) := by
      cases found : stmt.projections.head?.bind SelectItem.expr with
      | none => exact trivial
      | some e =>
        obtain ⟨item, head, shape⟩ := Option.bind_eq_some_iff.mp found
        exact parsed.projections item (List.mem_of_head? head) e shape
    obtain ⟨cond, isCond⟩ : ∃ cond,
      (stmt.projections.head?.bind SelectItem.expr).getD (.literal 1 0 0) = cond := ⟨_, rfl⟩
    have same : lowered stmt = executed { stmt with whereExpr := some cond } cond := by
      unfold executed lowered
      rw [filter, isCond]
      rfl
    rw [same]
    exact beside cond (isCond ▸ first)

mutual

/-- Evaluated from left to right, the expression comes to no signed quotient out of range
before it ends with an error. -/
def QuotientsFit (event : CanonicalEvent) : Expression → Prop
  | .literal _ _ _ | .columnRef _ _ _ => True
  | .binaryOp op left right _ _ =>
    QuotientsFit event left ∧ ((∃ a, valueOf event left = .ok a) → QuotientsFit event right) ∧
      ¬ (op = .slash ∧ operandType left right = .i64 ∧ QuotientOverflows event left right)
  | .unaryOp _ operand _ _ => QuotientsFit event operand
  | .functionCall name args _ _ => name.map toLower = nameBytes "count" ∨ ArgumentFits event args

/-- Only the first argument of a call is evaluated. -/
def ArgumentFits (event : CanonicalEvent) : List Expression → Prop
  | [] => True
  | arg :: _ => QuotientsFit event arg

end

theorem bind_fault_iff {α β : Type} {first : Except Stop α}
    {next : α → Except Stop β} {goesOn : Prop}
    (rest : ∀ value, first = .ok value → (next value ≠ .error .fault ↔ goesOn)) :
    (first >>= next) ≠ .error .fault ↔
      first ≠ .error .fault ∧ ((∃ value, first = .ok value) → goesOn) := by
  cases first with
  | error stop =>
    have same : ((.error stop : Except Stop α) >>= next) = .error .fault ↔
        (.error stop : Except Stop α) = .error .fault :=
      ⟨fun fault => by cases fault; rfl, fun fault => by cases fault; rfl⟩
    rw [Ne, same]
    exact (and_iff_left fun ⟨_, other⟩ => by cases other).symm
  | ok value =>
    rw [ok_bind, rest value rfl]
    exact ⟨fun fits => ⟨ok_ne_fault value, fun _ => fits⟩, fun both => both.2 ⟨value, rfl⟩⟩

theorem map_ne_fault {α β : Type} (f : α → β) (outcome : Except Stop α) :
    outcome.map f ≠ .error .fault ↔ outcome ≠ .error .fault := by
  cases outcome with
  | error stop =>
    exact not_congr ⟨fun fault => by cases fault; rfl, fun fault => by cases fault; rfl⟩
  | ok value => exact iff_of_true (ok_ne_fault _) (ok_ne_fault _)

theorem endsWell_ne_fault {α : Type} {outcome : Except Stop α} (well : endsWell outcome = true) :
    outcome ≠ .error .fault := by
  rintro rfl
  cases well

theorem combine_ne_fault {event : CanonicalEvent} {op : TokenType}
    (known : isBinaryOperator op = true)
    {left right : Expression} {a b : Option UInt64} (first : valueOf event left = .ok a)
    (second : valueOf event right = .ok b) :
    combineBinary op (operandType left right) a b ≠ .error .fault ↔
      ¬ (op = .slash ∧ operandType left right = .i64 ∧ QuotientOverflows event left right) := by
  have overflows : QuotientOverflows event left right ↔
      ∃ x y, a = some x ∧ b = some y ∧ signed x = -2 ^ 63 ∧ signed y = -1 := by
    unfold QuotientOverflows
    rw [first, second]
    simp only [Except.ok.injEq]
  by_cases signedRemainder : op = .percent ∧ operandType left right = .i64
  · have unimplemented : combineBinary op (operandType left right) a b = unsupported :=
      if_pos signedRemainder
    rw [unimplemented]
    exact iff_of_true (failWith_ne_fault _ _) fun slash =>
      absurd (signedRemainder.1.symm.trans slash.1) (by decide)
  by_cases missing : a = none ∨ b = none
  · rw [combineBinary_missing signedRemainder missing, overflows]
    refine iff_of_true (failWith_ne_fault _ _) ?_
    rintro ⟨-, -, x, y, rfl, rfl, -⟩
    rcases missing with none | none <;> cases none
  · obtain ⟨someA, someB⟩ := not_or.mp missing
    obtain ⟨x, rfl⟩ := Option.ne_none_iff_exists'.mp someA
    obtain ⟨y, rfl⟩ := Option.ne_none_iff_exists'.mp someB
    have whole : combineBinary op (operandType left right) (some x)
        (some y) = applyBinary op (operandType left right) x y :=
      if_neg signedRemainder
    have exactly : QuotientOverflows event left right ↔ signed x = -2 ^ 63 ∧ signed y = -1 := by
      rw [overflows]
      constructor
      · rintro ⟨x', y', one, two, both⟩
        cases one
        cases two
        exact both
      · exact fun both => ⟨x, y, rfl, rfl, both⟩
    have well := endsWell_binary known signedRemainder x y
    rw [whole, exactly]
    constructor
    · intro fine both
      refine fine ?_
      rw [both.1, both.2.1, applyBinary, (quotient_fault x y).mpr both.2.2]
    · exact fun fits => endsWell_ne_fault (well.mpr fits)

theorem combineUnary_ne_fault {op : TokenType}
    (known : isUnaryOperator op = true) (a : Option UInt64) :
    combineUnary op a ≠ .error .fault := by
  cases a with
  | none => exact failWith_ne_fault _ _
  | some a => exact endsWell_ne_fault (endsWell_unary known a)

mutual

theorem valueOf_fault_iff (event : CanonicalEvent) : (e : Expression) → Parsed e →
    (valueOf event e ≠ .error .fault ↔ QuotientsFit event e)
  | .literal _ _ _, _ => iff_of_true (ok_ne_fault _) trivial
  | .columnRef _ _ _, _ => iff_of_true (ok_ne_fault _) trivial
  | .binaryOp op left right _ _, parsed => by
    obtain ⟨known, parsedLeft, parsedRight⟩ := parsed
    have needs : QuotientOverflows event left right →
        (∃ a, valueOf event left = .ok a) ∧ ∃ b, valueOf event right = .ok b :=
      fun ⟨a, b, first, second, _⟩ => ⟨⟨some a, first⟩, some b, second⟩
    have last :=
      fun a (first : valueOf event left = .ok a) => @bind_fault_iff _ _ (valueOf event right) _ _
      fun b second => (map_ne_fault some _).trans (combine_ne_fault known first second)
    rw [valueOf, QuotientsFit, ← valueOf_fault_iff event left parsedLeft,
      ← valueOf_fault_iff event right parsedRight, bind_fault_iff last]
    constructor
    · rintro ⟨fits, goesOn⟩
      refine ⟨fits, fun first => (goesOn first).1, fun overflows => ?_⟩
      obtain ⟨first, second⟩ := needs overflows.2.2
      exact (goesOn first).2 second overflows
    · rintro ⟨fits, goesOn, inRange⟩
      exact ⟨fits, fun first => ⟨goesOn first, fun _ => inRange⟩⟩
  | .unaryOp op operand _ _, parsed => by
    obtain ⟨known, parsedOperand⟩ := parsed
    rw [valueOf, QuotientsFit, ← valueOf_fault_iff event operand parsedOperand]
    rw [@bind_fault_iff _ _ _ _ True fun a _ =>
      iff_of_true ((map_ne_fault _ _).mpr (combineUnary_ne_fault known a)) trivial]
    exact and_iff_left fun _ => trivial
  | .functionCall name args _ _, parsed => by
    rw [valueOf, QuotientsFit, ← valueOfCall_fault_iff event (name.map toLower) args parsed]
    by_cases count : name.map toLower = nameBytes "count"
    · rw [if_pos count]
      exact iff_of_true (failWith_ne_fault _ _) (.inl count)
    · rw [if_neg count]
      exact (or_iff_right count).symm

theorem valueOfCall_fault_iff (event : CanonicalEvent) (fname : Bytes) :
    (args : List Expression) → AllParsed args →
    (valueOfCall event fname args ≠ .error .fault ↔ ArgumentFits event args)
  | [], _ => iff_of_true (ok_ne_fault _) trivial
  | arg :: _, parsed => by
    rw [valueOfCall, ArgumentFits, ← valueOf_fault_iff event arg parsed.1]
    have rest : ∀ a, valueOf event arg = .ok a →
        ((if isAggregate fname then unsupported else .ok none : Except Stop (Option UInt64)) ≠
          .error .fault ↔ True) := by
      intro a _
      by_cases aggregate : isAggregate fname
      · rw [if_pos aggregate]
        exact iff_of_true (failWith_ne_fault _ _) trivial
      · rw [if_neg aggregate]
        exact iff_of_true (ok_ne_fault _) trivial
    rw [bind_fault_iff rest]
    exact and_iff_left fun _ => trivial

end

theorem execute_inRange_iff (stmt : QueryStmt) (fuel : Nat) (event : CanonicalEvent) :
    (∀ step ∈ executeSteps (Builder.buildFromQuery stmt) fuel event, StepInRange event step) ↔
      execute (Builder.buildFromQuery stmt) fuel event ≠ .error .fault := by
  have faults := blocksSteps_fault_iff (buildFromQuery_formed stmt) event fuel (some 0)
    (initialValues (Builder.buildFromQuery stmt))
  unfold execute executeSteps
  rw [Ne, faults]
  push Not
  exact forall₂_congr fun step _ => stepInRange_iff step

/-- For an accepted query no step of an execution leaves the range of the signed words, and every
result that would is reported, exactly if no quotient that is come to is out of range. -/
theorem signed_in_range_iff {parserFuel : Nat} {text : Bytes} {stmt : QueryStmt}
    (accepted : Parser.parse parserFuel text = some (.ok stmt)) {fuel : Nat} (enough : 0 < fuel)
    (event : CanonicalEvent) :
    (∀ step ∈ executeSteps (Builder.buildFromQuery stmt) fuel event, StepInRange event step) ↔
      QuotientsFit event (lowered stmt) := by
  have parsed := parsed_lowered (Parser.parse_parsed accepted)
  rw [execute_inRange_iff,
    execute_statement (lowerStatement_lowered stmt) parsed enough event, map_ne_fault]
  exact valueOf_fault_iff event (lowered stmt) parsed

/-- `price / 5 > 90` on a quote at 100. -/
theorem signed_in_range_quotient : ∃ stmt,
    Parser.parse 60 (nameBytes "SELECT * WHERE price / 5 > 90") = some (.ok stmt) ∧
      QuotientsFit VectorExecutor.sampleQuote (lowered stmt) := by
  obtain ⟨stmt, accepted, tested⟩ :=
    @Parser.accepted_of_test 60 (nameBytes "SELECT * WHERE price / 5 > 90")
    (fun stmt =>
      decide (execute (Builder.buildFromQuery stmt) 1 VectorExecutor.sampleQuote ≠ .error .fault))
    (by decide +kernel)
  have inRange :=
    (execute_inRange_iff stmt 1 VectorExecutor.sampleQuote).mpr (of_decide_eq_true tested)
  exact ⟨stmt, accepted,
    (signed_in_range_iff accepted Nat.one_pos VectorExecutor.sampleQuote).mp inRange⟩

/-- The literal is the least number as a signed word, and its quotient by minus one is computed. -/
theorem not_signed_in_range : ∃ stmt,
    Parser.parse 60 (nameBytes "SELECT * WHERE 9223372036854775808 / -1 = 0") = some (.ok stmt) ∧
      ¬ ∀ step ∈ executeSteps (Builder.buildFromQuery stmt) 1 VectorExecutor.sampleQuote,
        StepInRange VectorExecutor.sampleQuote step := by
  obtain ⟨stmt, accepted, tested⟩ :=
    @Parser.accepted_of_test 60 (nameBytes "SELECT * WHERE 9223372036854775808 / -1 = 0")
    (fun stmt =>
      decide (execute (Builder.buildFromQuery stmt) 1 VectorExecutor.sampleQuote = .error .fault))
    (by decide +kernel)
  exact ⟨stmt, accepted, fun inRange =>
    (execute_inRange_iff stmt 1 VectorExecutor.sampleQuote).mp inRange (of_decide_eq_true tested)⟩

end VectorTick.SignedRange
