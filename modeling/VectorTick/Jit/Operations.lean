import Mathlib.Tactic
import VectorTick.Jit.CodeGenerator

/-! Operations on machine words, and where the interpreter's checked operations are the same. -/

set_option autoImplicit false

namespace VectorTick.Jit

open Ir ReferenceInterpreter Evaluation

def truthWord (b : Bool) : UInt64 := if b then 1 else 0

/-- What a processor computes for an opcode with two operands: arithmetic wraps around, and the
logical operations are the bitwise ones. -/
def wordOperation (op : Opcode) (a b : UInt64) : UInt64 :=
  match op with
  | .addU64 | .addI64 => a + b
  | .subU64 | .subI64 => a - b
  | .mulU64 | .mulI64 => a * b
  | .divU64 => a / b
  | .divI64 => (a.toInt64 / b.toInt64).toUInt64
  | .and | .bitAnd => a &&& b
  | .or | .bitOr => a ||| b
  | .bitXor => a ^^^ b
  | .eqU64 | .eqI64 => truthWord (a = b)
  | .neU64 | .neI64 => truthWord (a ≠ b)
  | .ltU64 => truthWord (a < b)
  | .leU64 => truthWord (a ≤ b)
  | .gtU64 => truthWord (a > b)
  | .geU64 => truthWord (a ≥ b)
  | .ltI64 => truthWord (a.toInt64 < b.toInt64)
  | .leI64 => truthWord (a.toInt64 ≤ b.toInt64)
  | .gtI64 => truthWord (a.toInt64 > b.toInt64)
  | .geI64 => truthWord (a.toInt64 ≥ b.toInt64)
  | _ => 0

def hasWordOperation : Opcode → Bool
  | .addU64 | .addI64 | .subU64 | .subI64 | .mulU64 | .mulI64 | .divU64 | .divI64 |
    .and | .bitAnd | .or | .bitOr
  | .bitXor | .eqU64 | .eqI64 | .neU64 | .neI64 | .ltU64 | .leU64 | .gtU64 | .geU64 |
      .ltI64 | .leI64 | .gtI64
  | .geI64 => true
  | _ => false

variable {values after : Values} {instr : Instruction} {event : CanonicalEvent}
  {a b value : UInt64} {message : String}

theorem getVal_ok {id : ValueId} (found : getVal values id = .ok value) :
    values id = some value := by
  unfold getVal at found
  split at found
  · cases found
  · cases found
    assumption

theorem binary_ok {compute : UInt64 → UInt64 → Except Stop UInt64}
    (done : binary values instr compute = .ok after) :
    ∃ a b value, values (operand instr 0) = some a ∧ values (operand instr 1) = some b ∧
      compute a b = .ok value ∧
      after = setValue values instr.result value := by
  unfold binary at done
  cases first : getVal values (operand instr 0) with
  | error stop =>
    rw [first] at done
    cases done
  | ok a =>
    cases second : getVal values (operand instr 1) with
    | error stop =>
      rw [first, second] at done
      cases done
    | ok b =>
      rw [first, second] at done
      change (compute a b >>= fun value => .ok (setValue values instr.result value)) = _ at done
      cases computed : compute a b with
      | error stop =>
        rw [computed] at done
        cases done
      | ok value =>
        rw [computed] at done
        cases done
        exact ⟨a, b, value, getVal_ok first, getVal_ok second, computed, rfl⟩

theorem orFail_ok {result : Option UInt64} (done : orFail message result = .ok value) :
    result = some value := by
  cases result with
  | none => cases done
  | some found =>
    cases done
    rfl

theorem checkedAddU64_some (done : checkedAddU64 a b = some value) : value = a + b := by
  unfold checkedAddU64 at done
  split at done
  · cases done
  · exact (Option.some.inj done).symm

theorem checkedSubU64_some (done : checkedSubU64 a b = some value) : value = a - b := by
  unfold checkedSubU64 at done
  split at done
  · cases done
  · exact (Option.some.inj done).symm

theorem checkedMulU64_some (done : checkedMulU64 a b = some value) : value = a * b := by
  unfold checkedMulU64 at done
  split at done
  · cases done
  · exact (Option.some.inj done).symm

variable {x y z : Int64}

theorem checkedAddI64_some (done : checkedAddI64 x y = some z) : z = x + y := by
  unfold checkedAddI64 at done
  repeat' split at done
  all_goals first | exact (Option.some.inj done).symm | cases done

theorem checkedSubI64_some (done : checkedSubI64 x y = some z) : z = x - y := by
  unfold checkedSubI64 at done
  repeat' split at done
  all_goals first | exact (Option.some.inj done).symm | cases done

theorem checkedMulI64_some (done : checkedMulI64 x y = some z) : z = x * y := by
  unfold checkedMulI64 at done
  -- The factors zero and one are answered without a multiplication.
  split at done
  case isTrue zero =>
    cases done
    rcases zero with rfl | rfl
    · exact (Int64.zero_mul).symm
    · exact (Int64.mul_zero).symm
  split at done
  case isTrue one =>
    cases done
    rw [one, Int64.one_mul]
  split at done
  case isTrue one =>
    cases done
    rw [one, Int64.mul_one]
  repeat' split at done
  all_goals first | exact (Option.some.inj done).symm | cases done

/-- A checked operation on signed words. -/
theorem signed_ok {result : Option Int64}
    (done : orFail message (result.map Int64.toUInt64) = .ok value) :
    ∃ z, result = some z ∧ value = z.toUInt64 := by
  obtain ⟨z, found, same⟩ := Option.map_eq_some_iff.mp (orFail_ok done)
  exact ⟨z, found, same.symm⟩

theorem truth_ok {answer : Bool} (done : truth answer = .ok value) : value = truthWord answer := by
  cases done
  rfl

theorem sub_eq_zero_iff : a - b = 0 ↔ a = b := by
  rw [UInt64.sub_eq_iff_eq_add, UInt64.zero_add]

theorem toInt64_eq_iff : a.toInt64 = b.toInt64 ↔ a = b :=
  ⟨fun same => congrArg Int64.toUInt64 same, congrArg UInt64.toInt64⟩

theorem operation_of_binary {compute : UInt64 → UInt64 → Except Stop UInt64}
    (done : binary values instr compute = .ok after)
    (same : ∀ {a b value}, values (operand instr 0) = some a → values (operand instr 1) = some b →
      compute a b = .ok value → Target.LogicalIsBitwise values instr →
        value = wordOperation instr.opcode a b) :
    ∃ a b value, values (operand instr 0) = some a ∧ values (operand instr 1) = some b ∧
      after = setValue values instr.result value ∧
      (Target.LogicalIsBitwise values instr → value = wordOperation instr.opcode a b) := by
  obtain ⟨a, b, value, first, second, computed, result⟩ := binary_ok done
  exact ⟨a, b, value, first, second, result, same first second computed⟩

/-- An operation that the interpreter does not refuse gives what a processor computes. -/
theorem execute_operation (known : hasWordOperation instr.opcode = true)
    (done : executeInstruction values instr event = .ok after) :
    ∃ a b value, values (operand instr 0) = some a ∧ values (operand instr 1) = some b ∧
      after = setValue values instr.result value ∧
      (Target.LogicalIsBitwise values instr → value = wordOperation instr.opcode a b) := by
  unfold executeInstruction at done
  cases op : instr.opcode <;> rw [op] at known <;> first | exact absurd known (by decide) | skip
  all_goals
    simp only [op] at done
    rw [← op]
    refine operation_of_binary done ?_
    intro a b value first second computed agrees
    rw [op]
  case addU64 => exact checkedAddU64_some (orFail_ok computed)
  case subU64 => exact checkedSubU64_some (orFail_ok computed)
  case mulU64 => exact checkedMulU64_some (orFail_ok computed)
  case addI64 =>
    obtain ⟨z, found, rfl⟩ := signed_ok computed
    rw [checkedAddI64_some found, Int64.toUInt64_add]
    rfl
  case subI64 =>
    obtain ⟨z, found, rfl⟩ := signed_ok computed
    rw [checkedSubI64_some found, Int64.toUInt64_sub]
    rfl
  case mulI64 =>
    obtain ⟨z, found, rfl⟩ := signed_ok computed
    rw [checkedMulI64_some found, Int64.toUInt64_mul]
    rfl
  case divU64 =>
    split at computed
    · cases computed
    · exact (Except.ok.inj computed).symm
  case divI64 =>
    split at computed
    · cases computed
    split at computed
    · cases computed
    · exact (Except.ok.inj computed).symm
  case and =>
    unfold Target.LogicalIsBitwise at agrees
    simp only [op, first, second] at agrees
    rw [truth_ok computed]
    change _ = a &&& b
    rw [agrees]
    simp [truthWord]
  case or =>
    unfold Target.LogicalIsBitwise at agrees
    simp only [op, first, second] at agrees
    rw [truth_ok computed]
    change _ = a ||| b
    rw [agrees]
    simp [truthWord]
  case eqI64 =>
    rw [truth_ok computed]
    exact congrArg truthWord (decide_eq_decide.mpr toInt64_eq_iff)
  case neI64 =>
    rw [truth_ok computed]
    exact congrArg truthWord (decide_eq_decide.mpr (not_congr toInt64_eq_iff))
  all_goals first | exact truth_ok computed | exact (Except.ok.inj computed).symm

theorem reads_binary (known : hasWordOperation instr.opcode = true) :
    reads instr = [operand instr 0, operand instr 1] := by
  unfold reads
  cases op : instr.opcode <;> rw [op] at known <;> first | rfl | exact absurd known (by decide)

theorem defines_of_hasWordOperation (known : hasWordOperation instr.opcode = true) :
    defines instr = true := by
  unfold defines
  cases op : instr.opcode <;> rw [op] at known <;> first | rfl | exact absurd known (by decide)

/-- The constant of a `ConstU32` is one of 32 bits. -/
theorem getU32_toUInt64 {constant : Constant} {result : ValueId}
    (built : (Instruction.constOp constant result).opcode = .constU32) :
    constant.getU32.toUInt64 = constant.getU64 := by
  cases constant with
  | u32 word => exact UInt32.toUInt64_inj.mpr (UInt32.toUInt32_toUInt64 word)
  | i64 word => cases built
  | u64 word => cases built
  | boolean word => cases built

/-- What a constant instruction sets its result to. -/
theorem execute_constant (known : instr.opcode = .constU64 ∨ instr.opcode = .constI64 ∨
    instr.opcode = .constU32)
    (done : executeInstruction values instr event = .ok after) {constant : Constant}
    (payload : instr.payload = .constant constant) :
    after = setValue values instr.result constant.getU64 := by
  unfold executeInstruction at done
  rcases known with op | op |
    op <;> simp only [op, payload] at done <;> exact (Except.ok.inj done).symm

theorem execute_select (known : instr.opcode = .select)
    (done : executeInstruction values instr event = .ok after) :
    ∃ cond trueVal falseVal, values (operand instr 0) = some cond ∧
      values (operand instr 1) = some trueVal ∧
      values (operand instr 2) = some falseVal ∧
      after = setValue values instr.result (if cond ≠ 0 then trueVal else falseVal) := by
  unfold executeInstruction at done
  simp only [known] at done
  cases first : getVal values (operand instr 0) with
  | error stop =>
    rw [first] at done
    cases done
  | ok cond =>
    cases second : getVal values (operand instr 1) with
    | error stop =>
      rw [first, second] at done
      cases done
    | ok trueVal =>
      cases third : getVal values (operand instr 2) with
      | error stop =>
        rw [first, second, third] at done
        cases done
      | ok falseVal =>
        rw [first, second, third] at done
        cases done
        exact ⟨cond, trueVal, falseVal, getVal_ok first, getVal_ok second, getVal_ok third, rfl⟩

end VectorTick.Jit
