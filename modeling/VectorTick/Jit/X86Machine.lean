import Mathlib.Tactic
import VectorTick.Jit.X86Assembler

/-! A processor that runs x86-64 code without jumps, up to its first return. -/

set_option autoImplicit false

namespace VectorTick.Jit

open Foundation

/-- The flags that unsigned conditions test. -/
structure X86Flags where
  carry : Bool
  zero : Bool
  deriving DecidableEq, Repr

structure X86State where
  regs : X86Reg → UInt64
  flags : X86Flags
  memory : AddressSpace

namespace X86

def Condition.holds (flags : X86Flags) : Condition → Bool
  | .b => flags.carry
  | .ae => !flags.carry
  | .e => flags.zero
  | .ne => !flags.zero
  | .be => flags.carry || flags.zero
  | .a => !(flags.carry || flags.zero)

def compute (op : AluOp) (a b : UInt64) : UInt64 :=
  match op with
  | .add => a + b
  | .or => a ||| b
  | .and => a &&& b
  | .sub => a - b
  | .xor => a ^^^ b

def aluFlags (op : AluOp) (a b : UInt64) : X86Flags :=
  let zero := compute op a b = 0
  match op with
  | .add => ⟨a + b < a, zero⟩
  | .sub => ⟨a < b, zero⟩
  | .or | .and | .xor => ⟨false, zero⟩

def signExtend (imm : UInt32) : UInt64 := imm.toInt32.toInt64.toUInt64

def setReg (state : X86State) (reg : X86Reg) (value : UInt64) : X86State :=
  { state with regs := Function.update state.regs reg value }

/-- One instruction; a return is not among them. -/
def execute (state : X86State) : X86Instruction → X86State
  | .nop | .ret => state
  | .movImm64 dst imm => setReg state dst imm
  | .movImm32 dst imm => setReg state dst imm.toUInt64
  | .mov dst src => setReg state dst (state.regs src)
  | .alu op dst src => { setReg state dst (compute op (state.regs dst) (state.regs src)) with
      flags := aluFlags op (state.regs dst) (state.regs src) }
  -- The carry tells whether the upper half is lost; the zero flag is
  -- undefined and stays here what it was.
  | .imul dst src => { setReg state dst (state.regs dst * state.regs src) with
      flags := { state.flags with
        carry := (state.regs dst).toInt64.toInt * (state.regs src).toInt64.toInt ≠
          (state.regs dst * state.regs src).toInt64.toInt } }
  | .cmp first second =>
    { state with flags := aluFlags .sub (state.regs first) (state.regs second) }
  | .addImm32 dst imm => { setReg state dst (state.regs dst + signExtend imm) with
      flags := aluFlags .add (state.regs dst) (signExtend imm) }
  -- The upper bytes of the register stay.
  | .setcc cond dst =>
    setReg state dst
      ((state.regs dst &&& 0xFFFFFFFFFFFFFF00) ||| (if Condition.holds state.flags cond then
      1 else 0))
  | .push reg => setReg { state with
      memory :=
        state.memory.write (state.regs .rsp - 8) (u64 (state.regs reg)) } .rsp (state.regs .rsp - 8)
  | .pop reg => setReg (setReg state .rsp (state.regs .rsp + 8)) reg
      (u64Of (state.memory.peek (state.regs .rsp) 8))

/-- The code up to the first return: where it returns to, and the state there. `fuel` bounds
the number of instructions. -/
def runFuel : Nat → Bytes → X86State → Option (UInt64 × X86State)
  | 0, _, _ => none
  | fuel + 1, code, state =>
    match decode code with
    | none => none
    | some (.ret, _) =>
      some (u64Of (state.memory.peek (state.regs .rsp) 8), setReg state .rsp (state.regs .rsp + 8))
    | some (instruction, rest) => runFuel fuel rest (execute state instruction)

/-- There are not more instructions than bytes. -/
def run (code : Bytes) (state : X86State) : Option (UInt64 × X86State) :=
  runFuel code.length code state

theorem length_decodeModrm {rex : Rex} {code rest : Bytes} {reg rm : X86Reg}
    (decoded : decodeModrm rex code = some (reg, rm, rest)) : rest.length < code.length := by
  cases code with
  | nil => cases decoded
  | cons byte more =>
    rw [decodeModrm] at decoded
    split at decoded
    · cases decoded
      simp
    · cases decoded

theorem length_decodeRegRm {rex : Rex} {make : X86Reg → X86Reg → X86Instruction} {code rest : Bytes}
    {instruction : X86Instruction}
    (decoded : decodeRegRm rex make code = some (instruction, rest)) :
    rest.length < code.length := by
  unfold decodeRegRm at decoded
  split at decoded
  · obtain ⟨⟨reg, rm, more⟩, found, same⟩ := Option.map_eq_some_iff.mp decoded
    cases same
    exact length_decodeModrm found
  · cases decoded

theorem length_decodeImm32 {make : UInt32 → X86Instruction} {code rest : Bytes}
    {instruction : X86Instruction}
    (decoded : decodeImm32 make code = some (instruction, rest)) : rest.length ≤ code.length := by
  unfold decodeImm32 at decoded
  split at decoded
  · cases decoded
    simp
  · cases decoded

theorem length_decodeTwoByte {rex : Rex} {code rest : Bytes} {instruction : X86Instruction}
    (decoded : decodeTwoByte rex code = some (instruction, rest)) : rest.length < code.length := by
  cases code with
  | nil => cases decoded
  | cons opcode more =>
    rw [decodeTwoByte] at decoded
    split at decoded
    · exact Nat.lt_succ_of_lt (length_decodeRegRm decoded)
    split at decoded
    · obtain ⟨cond, known, decoded⟩ := Option.bind_eq_some_iff.mp decoded
      obtain ⟨⟨reg, rm, after⟩, found, decoded⟩ := Option.bind_eq_some_iff.mp decoded
      dsimp only at decoded
      split at decoded
      · cases decoded
        exact Nat.lt_succ_of_lt (length_decodeModrm found)
      · cases decoded
    · cases decoded

theorem of_ite {α : Type} {condition goal : Prop} [Decidable condition]
    {first second : Option α} {value : α}
    (decided : (if condition then first else second) = some value) (yes : first = some value → goal)
    (no : second = some value → goal) : goal := by
  split at decided
  · exact yes decided
  · exact no decided

theorem length_decodeOpcode {rex : Rex} {code rest : Bytes} {instruction : X86Instruction}
    (decoded : decodeOpcode rex code = some (instruction, rest)) : rest.length < code.length := by
  cases code with
  | nil => cases decoded
  | cons opcode more =>
    rw [decodeOpcode] at decoded
    have registers : ∀ make, decodeRegRm rex make more = some (instruction, rest) →
        rest.length < more.length + 1 :=
      fun _ found => Nat.lt_succ_of_lt (length_decodeRegRm found)
    have alone : ∀ made, some (made, more) = some (instruction, rest) →
        rest.length < more.length + 1 := by
      rintro made ⟨⟩
      exact Nat.lt_succ_self _
    iterate 7 refine of_ite decoded (registers _) fun decoded => ?_
    refine of_ite decoded (fun found => Nat.lt_succ_of_lt (length_decodeTwoByte found))
      fun decoded => ?_
    refine of_ite decoded (fun found => ?_) fun decoded => ?_
    · refine of_ite found (fun found => ?_) fun found => by cases found
      obtain ⟨⟨operation, rm, after⟩, modrm, found⟩ := Option.bind_eq_some_iff.mp found
      refine of_ite found (fun found => ?_) fun found => by cases found
      have inside := length_decodeModrm modrm
      have shorter := length_decodeImm32 found
      rw [List.length_cons]
      omega
    iterate 4 refine of_ite decoded (alone _) fun decoded => ?_
    refine of_ite decoded (fun found => ?_) fun found => by cases found
    refine of_ite found (fun found => ?_) fun found => Nat.lt_succ_of_le (length_decodeImm32 found)
    refine of_ite found (fun found => ?_) fun found => by cases found
    cases found
    rw [List.length_drop, List.length_cons]
    omega

theorem length_decode {code rest : Bytes} {instruction : X86Instruction}
    (decoded : decode code = some (instruction, rest)) : rest.length < code.length := by
  cases code with
  | nil => cases decoded
  | cons byte more =>
    rw [decode] at decoded
    split at decoded
    · exact Nat.lt_succ_of_lt (length_decodeOpcode decoded)
    · exact length_decodeOpcode decoded

theorem runFuel_enough {code : Bytes} {first second : Nat} (enough : code.length ≤ first)
    (alsoEnough : code.length ≤ second) (state : X86State) :
    runFuel first code state = runFuel second code state := by
  induction first generalizing second code state with
  | zero =>
    have empty : code = [] := List.length_eq_zero_iff.mp (Nat.le_zero.mp enough)
    subst empty
    cases second <;> rfl
  | succ first ih =>
    cases second with
    | zero =>
      have empty : code = [] := List.length_eq_zero_iff.mp (Nat.le_zero.mp alsoEnough)
      subst empty
      rfl
    | succ second =>
      rw [runFuel, runFuel]
      cases decoded : decode code with
      | none => rfl
      | some found =>
        obtain ⟨instruction, rest⟩ := found
        have shorter := length_decode decoded
        have same := fun after => @ih rest second (by omega) (by omega) after
        cases instruction <;> first | rfl | exact same _

theorem run_of_decode {code rest : Bytes} {instruction : X86Instruction} {state : X86State}
    (decoded : decode code = some (instruction, rest)) (goesOn : instruction ≠ .ret) :
    run code state = run rest (execute state instruction) := by
  have shorter := length_decode decoded
  unfold run
  rw [runFuel_enough (Nat.le_refl _)
    (show code.length ≤ (code.length - 1) + 1 by omega), runFuel, decoded]
  cases instruction <;>
    first | exact absurd rfl goesOn | exact runFuel_enough (by omega) (Nat.le_refl _) _

/-- A piece of code leads from one state to another, whatever follows it. -/
def Does (piece : Bytes) (state after : X86State) : Prop :=
  ∀ rest, run (piece ++ rest) state = run rest after

theorem Does.trans {first second : Bytes} {state middle after : X86State}
    (one : Does first state middle)
    (two : Does second middle after) : Does (first ++ second) state after := by
  intro rest
  rw [List.append_assoc, one, two]

theorem does_of_decode {piece : Bytes} {instruction : X86Instruction}
    (decoded : ∀ rest, decode (piece ++ rest) = some (instruction, rest))
    (goesOn : instruction ≠ .ret)
    (state : X86State) : Does piece state (execute state instruction) :=
  fun rest => run_of_decode (decoded rest) goesOn

theorem run_ret (rest : Bytes) (state : X86State) : run (X86Assembler.ret ++ rest) state =
    some (u64Of (state.memory.peek (state.regs .rsp) 8), setReg state .rsp (state.regs .rsp + 8)) :=
  rfl

end X86

end VectorTick.Jit
