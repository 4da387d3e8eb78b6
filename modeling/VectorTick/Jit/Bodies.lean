import VectorTick.Foundation.Processor
import VectorTick.Jit.CodeGenerator

/-! The shape of generated code.

Whatever a function computes, its code is a prologue, pieces that touch nothing but
the registers results are given to, and an epilogue: the one of the first return,
or the one behind all blocks. -/

set_option autoImplicit false

namespace VectorTick.Jit

open Foundation Ir

section Bodies

variable {Reg Code Instr State : Type} {p : Processor Code Instr State}
  {keeps : State → State → Prop}
  {emitInstruction : Allocation Reg → Instruction → Except Stop (List Code × Allocation Reg)}
  {epilogue : List Code}
  {pool : List Reg} {fallback : Reg}

/-- Only registers of the pool are handed out. -/
def Pooled (pool : List Reg) (g : Allocation Reg) : Prop := ∀ reg ∈ g.freeRegs, reg ∈ pool

theorem Pooled.allocateReg {g : Allocation Reg} (pooled : Pooled pool g)
    (listed : fallback ∈ pool) :
    (g.allocateReg fallback).1 ∈ pool ∧ Pooled pool (g.allocateReg fallback).2 := by
  unfold Allocation.allocateReg
  cases last : g.freeRegs.getLast? with
  | none => exact ⟨listed, pooled⟩
  | some reg =>
    exact ⟨pooled reg (List.mem_of_getLast? last), fun other found =>
      pooled other (List.dropLast_subset _ found)⟩

variable (p keeps epilogue) in
/-- The code of an instruction is quiet, and a return is followed by the epilogue. -/
def Bodied (code : List Code) : Prop :=
  p.Quiet keeps code ∨ ∃ piece, p.Quiet keeps piece ∧ code = piece ++ epilogue

theorem bodied_instructions (refl : ∀ state, keeps state state)
    (trans : ∀ first second third, keeps first second → keeps second third → keeps first third)
    (step : ∀ {g instr code next}, Pooled pool g → emitInstruction g instr = .ok (code, next) →
      Bodied p keeps epilogue code ∧ Pooled pool next) {g next : Allocation Reg}
      {instrs : List Instruction}
    {code : List Code} (pooled : Pooled pool g)
    (emitted : emitInstructions emitInstruction g instrs = .ok (code, next)) :
    ∃ piece rest, p.Quiet keeps piece ∧ code ++ epilogue = piece ++ (epilogue ++ rest) := by
  induction instrs generalizing g code with
  | nil =>
    cases emitted
    exact ⟨[], [], .nil refl, by simp⟩
  | cons instr instrs ih =>
    obtain ⟨first, middle, more, one, others, rfl⟩ := Target.emitInstructions_cons emitted
    obtain ⟨body, left⟩ := step pooled one
    rcases body with quiet | ⟨piece, quiet, rfl⟩
    · obtain ⟨piece, rest, still, same⟩ := ih left others
      exact ⟨first ++ piece, rest,
        quiet.append trans still, by rw [List.append_assoc, same, List.append_assoc]⟩
    · exact ⟨piece, more ++ epilogue, quiet, by simp only [List.append_assoc]⟩

end Bodies

end VectorTick.Jit
