import Mathlib.Tactic
import VectorTick.Jit.A64Assembler

/-! A processor that runs AArch64 code without jumps, up to its first return. -/

set_option autoImplicit false

namespace VectorTick.Jit

open Foundation

structure A64Flags where
  n : Bool
  z : Bool
  c : Bool
  v : Bool
  deriving DecidableEq, Repr

/-- Under number 31 the registers hold the stack pointer. -/
structure A64State where
  regs : A64Reg → UInt64
  flags : A64Flags
  memory : AddressSpace

namespace A64

def conditionHolds (flags : A64Flags) : A64Condition → Bool
  | .eq => flags.z
  | .ne => !flags.z
  | .hs => flags.c
  | .lo => !flags.c
  | .mi => flags.n
  | .pl => !flags.n
  | .vs => flags.v
  | .vc => !flags.v
  | .hi => flags.c && !flags.z
  | .ls => !(flags.c && !flags.z)
  | .ge => flags.n == flags.v
  | .lt => flags.n != flags.v
  | .gt => !flags.z && flags.n == flags.v
  | .le => !(!flags.z && flags.n == flags.v)
  | .al | .nv => true

/-- Division by zero gives zero. -/
def compute (op : DataOp) (a b : UInt64) : UInt64 :=
  match op with
  | .add => a + b
  | .sub => a - b
  | .mul => a * b
  | .udiv => a / b
  | .sdiv => (a.toInt64 / b.toInt64).toUInt64
  | .and => a &&& b
  | .orr => a ||| b
  | .eor => a ^^^ b

/-- The carry of a subtraction is set where nothing is borrowed. -/
def subFlags (a b : UInt64) : A64Flags where
  n := (a - b).toInt64 < 0
  z := a - b = 0
  c := a ≥ b
  v := a.toInt64.toInt - b.toInt64.toInt ≠ (a - b).toInt64.toInt

/-- A register as data: number 31 is zero. -/
def read (state : A64State) (reg : A64Reg) : UInt64 := if reg = .xzr then 0 else state.regs reg

def setReg (state : A64State) (reg : A64Reg) (value : UInt64) : A64State :=
  { state with regs := Function.update state.regs reg value }

def write (state : A64State) (reg : A64Reg) (value : UInt64) : A64State :=
  if reg = .xzr then state else setReg state reg value

/-- One instruction; a return is not among them. -/
def execute (state : A64State) : A64Instruction → A64State
  | .nop | .ret _ => state
  | .data op dst src1 src2 => write state dst (compute op (read state src1) (read state src2))
  | .subs dst src1 src2 => { write state dst (read state src1 - read state src2) with
      flags := subFlags (read state src1) (read state src2) }
  | .movz dst imm part => write state dst (imm <<< (16 * part))
  | .movk dst imm part =>
    write state dst ((read state dst &&& ~~~(0xFFFF <<< (16 * part))) ||| (imm <<< (16 * part)))
  | .csel dst src1 src2 cond =>
    write state dst (if conditionHolds state.flags cond then read state src1 else read state src2)
  | .csinc dst src1 src2 cond =>
    write state dst (if conditionHolds state.flags cond then read state src1
      else read state src2 + 1)
  | .load size dst base offset =>
    write state dst (UInt64.ofNat (leValue (state.memory.peek (state.regs base + offset) size)))
  -- The base is moved before the registers are stored, and after they are loaded.
  | .stpPre src1 src2 base offset => setReg { state with
      memory := state.memory.write (state.regs base + offset)
        (u64 (read state src1) ++ u64 (read state src2)) }
      base (state.regs base + offset)
  | .ldpPost dst1 dst2 base offset =>
    write (write (setReg state base (state.regs base + offset)) dst1
      (u64Of (state.memory.peek (state.regs base) 8)))
      dst2 (u64Of (state.memory.peek (state.regs base + 8) 8))

/-- The code up to the first return: where it returns to, and the state there. -/
def run : List UInt32 → A64State → Option (UInt64 × A64State)
  | [], _ => none
  | word :: rest, state =>
    match decode word with
    | none => none
    | some (.ret target) => some (read state target, state)
    | some instruction => run rest (execute state instruction)

/-- A piece of code leads from one state to another, whatever follows it. -/
def Does (piece : List UInt32) (state after : A64State) : Prop :=
  ∀ rest, run (piece ++ rest) state = run rest after

theorem Does.refl (state : A64State) : Does [] state state := fun _ => rfl

theorem Does.trans {first second : List UInt32} {state middle after : A64State}
    (one : Does first state middle)
    (two : Does second middle after) : Does (first ++ second) state after := by
  intro rest
  rw [List.append_assoc, one, two]

theorem does_of_decode {word : UInt32} {instruction : A64Instruction}
    (decoded : decode word = some instruction)
    (goesOn : ∀ target, instruction ≠ .ret target) (state : A64State) :
    Does [word] state (execute state instruction) := by
  intro rest
  rw [List.singleton_append, run, decoded]
  cases instruction <;> first | rfl | exact absurd rfl (goesOn _)

theorem run_ret (target : A64Reg) (rest : List UInt32) (state : A64State) :
    run ([A64Assembler.ret target] ++ rest) state = some (read state target, state) := by
  rw [List.singleton_append, run, decode_ret]

section Conditions

variable {a b : UInt64}

theorem signed_less : ((subFlags a b).n != (subFlags a b).v) = true ↔ a.toInt64 < b.toInt64 := by
  have lowest := Int64.le_toInt a.toInt64
  have highest := Int64.toInt_lt a.toInt64
  have lowestOther := Int64.le_toInt b.toInt64
  have highestOther := Int64.toInt_lt b.toInt64
  have wrapped : (a - b).toInt64.toInt = (a.toInt64.toInt - b.toInt64.toInt).bmod (2 ^ 64) := by
    rw [UInt64.toInt64_sub, Int64.toInt_sub]
  -- The difference wraps around at most once.
  have near : (a - b).toInt64.toInt = a.toInt64.toInt - b.toInt64.toInt ∨
      (a - b).toInt64.toInt = a.toInt64.toInt - b.toInt64.toInt + 2 ^ 64 ∨
      (a - b).toInt64.toInt = a.toInt64.toInt - b.toInt64.toInt - 2 ^ 64 := by
    rw [wrapped, Int.bmod_def]
    split <;> omega
  have lowestDifference := Int64.le_toInt (a - b).toInt64
  have highestDifference := Int64.toInt_lt (a - b).toInt64
  unfold subFlags
  rw [bne_iff_ne, ne_eq, decide_eq_decide, Int64.lt_iff_toInt_lt,
    Int64.lt_iff_toInt_lt, Int64.toInt_zero]
  omega

theorem equal_iff : (subFlags a b).z = true ↔ a = b := by
  unfold subFlags
  rw [decide_eq_true_iff, UInt64.sub_eq_iff_eq_add, UInt64.zero_add]

theorem signed_le_iff : a.toInt64 ≤ b.toInt64 ↔ a.toInt64 < b.toInt64 ∨ a = b := by
  have same : a.toInt64 = b.toInt64 ↔ a = b := ⟨congrArg Int64.toUInt64, congrArg UInt64.toInt64⟩
  rw [Int64.le_iff_lt_or_eq, same]

variable (a b)

theorem holds_lo : conditionHolds (subFlags a b) .lo = true ↔ a < b := by
  simp [conditionHolds, subFlags]

theorem holds_hs : conditionHolds (subFlags a b) .hs = true ↔ a ≥ b := by
  simp [conditionHolds, subFlags]

theorem holds_hi : conditionHolds (subFlags a b) .hi = true ↔ a > b := by
  change ((subFlags a b).c && !(subFlags a b).z) = true ↔ b < a
  rw [Bool.and_eq_true, Bool.not_eq_true', ← Bool.not_eq_true, equal_iff, UInt64.lt_iff_le_and_ne]
  simp [subFlags, eq_comm]

theorem holds_lt : conditionHolds (subFlags a b) .lt = true ↔ a.toInt64 < b.toInt64 := signed_less

theorem holds_ge : conditionHolds (subFlags a b) .ge = true ↔ a.toInt64 ≥ b.toInt64 := by
  have less := @signed_less a b
  change ((subFlags a b).n == (subFlags a b).v) = true ↔ _
  rw [ge_iff_le, ← Int64.not_lt, ← less, bne_iff_ne, beq_iff_eq, not_not]

theorem holds_gt : conditionHolds (subFlags a b) .gt = true ↔ a.toInt64 > b.toInt64 := by
  change (!(subFlags a b).z && (subFlags a b).n == (subFlags a b).v) = true ↔ _
  rw [Bool.and_eq_true, Bool.not_eq_true', ← Bool.not_eq_true, equal_iff]
  change _ ∧ conditionHolds (subFlags a b) .ge = true ↔ b.toInt64 < a.toInt64
  rw [holds_ge, ← Int64.not_le, signed_le_iff, ge_iff_le, ← Int64.not_lt]
  tauto

end Conditions

theorem holds_inverse (flags : A64Flags) {cond : A64Condition} (proper : cond ≠ .al ∧ cond ≠ .nv) :
    conditionHolds flags (inverse cond) = !conditionHolds flags cond := by
  obtain ⟨n, z, c, v⟩ := flags
  revert n z c v
  cases cond <;> first | decide | exact absurd rfl proper.1 | exact absurd rfl proper.2

/-- Number 31 is never written as data. -/
structure Writes (dst : A64Reg) (value : UInt64) (state after : A64State) : Prop where
  memory : after.memory = state.memory
  here : after.regs dst = value
  others : ∀ reg, reg ≠ dst → after.regs reg = state.regs reg

theorem Writes.trans {dst : A64Reg} {first second : UInt64} {state middle after : A64State}
    (one : Writes dst first state middle) (two : Writes dst second middle after) :
    Writes dst second state after :=
  ⟨two.memory.trans one.memory, two.here,
    fun reg ne => (two.others reg ne).trans (one.others reg ne)⟩

theorem does_cmp (lhs rhs : A64Reg) (state : A64State) :
    Does [A64Assembler.cmpX64X64 lhs rhs] state
      { state with flags := subFlags (read state lhs) (read state rhs) } :=
  does_of_decode (decode_cmpX64X64 lhs rhs) (by simp) state

section Pieces

variable {dst : A64Reg} (real : dst ≠ .xzr) (state : A64State)
include real

theorem read_real : read state dst = state.regs dst := if_neg real

theorem writes_write (value : UInt64) (flags : A64Flags) :
    Writes dst value state (write { state with flags := flags } dst value) := by
  unfold write
  rw [if_neg real]
  exact ⟨rfl, Function.update_self .., fun _ ne => Function.update_of_ne ne ..⟩

theorem does_data {word : UInt32} {op : DataOp} {src1 src2 : A64Reg}
    (decoded : decode word = some (.data op dst src1 src2)) :
    ∃ after, Does [word] state after ∧
      Writes dst (compute op (read state src1) (read state src2)) state after :=
  ⟨_, does_of_decode decoded (by simp) state, writes_write real state _ state.flags⟩

theorem does_mov (src : A64Reg) :
    ∃ after, Does [A64Assembler.movX64X64 dst src] state after ∧
      Writes dst (read state src) state after := by
  obtain ⟨after, does, writes⟩ := does_data real state (decode_movX64X64 dst src)
  refine ⟨after, does, ?_⟩
  rwa [show compute .orr (read state .xzr) (read state src) =
    read state src from UInt64.zero_or] at writes

theorem does_compare (lhs rhs : A64Reg) {cond : A64Condition} (proper : cond ≠ .al ∧ cond ≠ .nv) :
    ∃ after, Does [A64Assembler.cmpX64X64 lhs rhs, A64Assembler.csetX64 dst cond] state after ∧
      Writes dst (if conditionHolds (subFlags (read state lhs) (read state rhs)) cond then
        1 else 0) state after := by
  refine ⟨_,
    (does_cmp lhs rhs state).trans (does_of_decode (decode_csetX64 dst cond) (by simp) _), ?_⟩
  have result : (if conditionHolds (subFlags (read state lhs) (read state rhs))
      (inverse cond) then (0 : UInt64)
      else 0 + 1) = if conditionHolds (subFlags (read state lhs) (read state rhs)) cond then
        1 else 0 := by
    rw [holds_inverse _ proper]
    cases conditionHolds (subFlags (read state lhs) (read state rhs)) cond <;> rfl
  rw [← result]
  exact writes_write real state _ _

/-- The first source where a word is not zero, and else the second one. -/
theorem does_select (cond src1 src2 : A64Reg) :
    ∃ after, Does [A64Assembler.cmpX64X64 cond .xzr,
      A64Assembler.cselX64 dst src1 src2 .ne] state after ∧
      Writes dst (if read state cond ≠ 0 then read state src1
        else read state src2) state after := by
  refine ⟨_, (does_cmp cond .xzr state).trans
    (does_of_decode (decode_cselX64 dst src1 src2 .ne) (by simp) _), ?_⟩
  have zero : conditionHolds (subFlags (read state cond) 0) .ne = decide (read state cond ≠ 0) := by
    rw [Bool.eq_iff_iff, decide_eq_true_iff, ne_eq, ← equal_iff]
    simp [conditionHolds]
  have result : (if conditionHolds (subFlags (read state cond) 0) .ne then
      read state src1 else read state src2) =
      if read state cond ≠ 0 then read state src1 else read state src2 := by
    simp only [zero, decide_eq_true_iff]
  rw [← result]
  exact writes_write real state _ _

end Pieces

section Constants

open A64Assembler

theorem low_part (word : UInt64) : (word &&& 0xFFFF).toUInt16.toUInt64 = word &&& 0xFFFF := by
  have mask : (0xFFFF : Nat) = 2 ^ 16 - 1 := rfl
  apply UInt64.toNat.inj
  rw [UInt64.toUInt64_toUInt16, UInt64.toNat_mod, UInt64.toNat_and]
  change (word.toNat &&& 0xFFFF) % 2 ^ 16 = word.toNat &&& 0xFFFF
  rw [mask, Nat.and_two_pow_sub_one_eq_mod, Nat.mod_mod]

theorem shiftRight_shiftLeft {word shift : UInt64} (inside : shift < 64) :
    (word >>> shift) <<< shift = word &&& ((-1) <<< shift) := by
  have small : (shift.toBitVec % 64).toNat = shift.toNat := by
    have bound : shift.toNat < 64 := UInt64.lt_iff_toNat_lt.mp inside
    rw [BitVec.toNat_umod]
    exact Nat.mod_eq_of_lt bound
  apply UInt64.toBitVec_inj.mp
  rw [UInt64.toBitVec_shiftLeft, UInt64.toBitVec_shiftRight, UInt64.toBitVec_and,
    UInt64.toBitVec_shiftLeft]
  simp only [BitVec.shiftLeft_eq', BitVec.ushiftRight_eq', small]
  rw [BitVec.shiftLeft_ushiftRight]
  rfl

theorem part_shifted {word shift : UInt64} (inside : shift < 64) :
    ((word >>> shift) &&& 0xFFFF).toUInt16.toUInt64 <<< shift = word &&& (0xFFFF <<< shift) := by
  rw [low_part, UInt64.shiftLeft_and, shiftRight_shiftLeft inside, UInt64.and_assoc,
    UInt64.neg_one_shiftLeft_and_shiftLeft]

theorem and_or_distrib (a b c : UInt64) : a &&& (b ||| c) = (a &&& b) ||| (a &&& c) := by
  apply UInt64.toBitVec_inj.mp
  exact BitVec.and_or_distrib_left

theorem writes_refl {dst : A64Reg} {value : UInt64} {state : A64State}
    (here : state.regs dst = value) :
    Writes dst value state state :=
  ⟨rfl, here, fun _ _ => rfl⟩

variable {dst : A64Reg} (real : dst ≠ .xzr)
include real

theorem does_movz (imm : UInt16) (state : A64State) :
    ∃ after, Does [movzX64 dst imm 0] state after ∧ Writes dst imm.toUInt64 state after := by
  refine ⟨_, does_of_decode (decode_movzX64 dst imm (.inl rfl)) (by simp) state, ?_⟩
  have value : imm.toUInt64 <<< (16 * ((0 : UInt8) / 16).toUInt64) = imm.toUInt64 :=
    UInt64.shiftLeft_zero
  have written :=
    writes_write real state (imm.toUInt64 <<< (16 * ((0 : UInt8) / 16).toUInt64)) state.flags
  exact ⟨written.memory, written.here.trans value, written.others⟩

/-- One part more of a constant, of which some bits are there; where the part is
zero, nothing is to be done. -/
theorem does_movk (mask : UInt64) {shift : UInt8} {imm known : UInt64} (isShift : IsShift shift)
    (place : mask = 0xFFFF <<< shift.toUInt64)
    (apart : known &&& ~~~mask = known) {state : A64State}
    (held : state.regs dst = imm &&& known) :
    ∃ after, Does (if imm &&& mask ≠ 0 then
      [movkX64 dst ((imm >>> shift.toUInt64) &&& 0xFFFF).toUInt16 shift]
        else []) state after ∧ Writes dst (imm &&& (known ||| mask)) state after := by
  split
  case isTrue =>
    refine ⟨_, does_of_decode (decode_movkX64 dst _ isShift) (by simp) state, ?_⟩
    have unit : 16 * (shift / 16).toUInt64 = shift.toUInt64 ∧ shift.toUInt64 < 64 := by
      rcases isShift with rfl | rfl | rfl | rfl <;> decide
    have value : (read state dst &&& ~~~(0xFFFF <<< (16 * (shift / 16).toUInt64))) |||
        (((imm >>> shift.toUInt64) &&& 0xFFFF).toUInt16.toUInt64 <<< (16 * (shift / 16).toUInt64)) =
        imm &&& (known ||| mask) := by
      rw [unit.1, part_shifted unit.2, read_real real, held, ← place, UInt64.and_assoc, apart,
        and_or_distrib]
    rw [← value]
    exact writes_write real state _ state.flags
  case isFalse zero =>
    refine ⟨state, .refl state, writes_refl ?_⟩
    rw [held, and_or_distrib, not_not.mp zero, UInt64.or_zero]

theorem does_movImm64 (imm : UInt64) (state : A64State) :
    ∃ after, Does (movX64Imm64 dst imm) state after ∧ Writes dst imm state after := by
  obtain ⟨first, one, wroteFirst⟩ := does_movz real (imm &&& 0xFFFF).toUInt16 state
  rw [low_part] at wroteFirst
  obtain ⟨second, two, wroteSecond⟩ :=
    does_movk real 0xFFFF0000 (.inr (.inl rfl)) rfl (by decide) wroteFirst.here
  obtain ⟨third, three, wroteThird⟩ :=
    does_movk real 0xFFFF00000000 (.inr (.inr (.inl rfl))) rfl (by decide) wroteSecond.here
  obtain ⟨last, four, wroteLast⟩ :=
    does_movk real 0xFFFF000000000000 (.inr (.inr (.inr rfl))) rfl (by decide) wroteThird.here
  refine ⟨last, ((one.trans two).trans three).trans four, ?_⟩
  have all : imm &&& (0xFFFF ||| 0xFFFF0000 ||| 0xFFFF00000000 ||| 0xFFFF000000000000) = imm :=
    UInt64.and_neg_one
  rw [all] at wroteLast
  exact ((wroteFirst.trans wroteSecond).trans wroteThird).trans wroteLast

end Constants

end A64

end VectorTick.Jit
