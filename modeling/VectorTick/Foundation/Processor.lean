import Mathlib.Tactic

/-! Processors that take instructions off the front of their code until one of them returns.

A run lists the addresses that its instructions store to. Pieces of code are composed by what they
do in front of any other code. -/

set_option autoImplicit false

namespace Foundation

structure Processor (Code Instr State : Type) where
  next : List Code → Option (Instr × List Code)
  shorter : ∀ {code rest instr}, next code = some (instr, rest) → rest.length < code.length
  returns : Instr → Bool
  execute : State → Instr → State
  -- The addresses an instruction stores to.
  stored : State → Instr → List UInt64

namespace Processor

variable {Code Instr State : Type} (p : Processor Code Instr State)

/-- The run up to the first return: the addresses stored to, and the return
with the state it is met in. -/
def traceFuel : Nat → List Code → State → Option (List UInt64 × Instr × State)
  | 0, _, _ => none
  | fuel + 1, code, state =>
    match p.next code with
    | none => none
    | some (instr, rest) =>
      if p.returns instr then some ([], instr, state)
      else (traceFuel fuel rest (p.execute state instr)).map fun run =>
        (p.stored state instr ++ run.1, run.2)

def trace (code : List Code) (state : State) : Option (List UInt64 × Instr × State) :=
  p.traceFuel code.length code state

variable {p} {code rest : List Code} {instr : Instr} {state middle after : State}

theorem traceFuel_enough {first second : Nat} (enough : code.length ≤ first)
    (alsoEnough : code.length ≤ second) :
    p.traceFuel first code state = p.traceFuel second code state := by
  induction first generalizing second code state with
  | zero =>
    cases second with
    | zero => rfl
    | succ second =>
      rw [traceFuel, traceFuel]
      cases found : p.next code with
      | none => rfl
      | some step =>
        have shorter := p.shorter found
        omega
  | succ first ih =>
    cases second with
    | zero =>
      rw [traceFuel, traceFuel]
      cases found : p.next code with
      | none => rfl
      | some step =>
        have shorter := p.shorter found
        omega
    | succ second =>
      rw [traceFuel, traceFuel]
      cases found : p.next code with
      | none => rfl
      | some step =>
        have shorter := p.shorter found
        dsimp only
        rw [@ih _ _ second (by omega) (by omega)]

theorem trace_return (found : p.next code = some (instr, rest)) (returns : p.returns instr = true) :
    p.trace code state = some ([], instr, state) := by
  have shorter := p.shorter found
  unfold trace
  rw [show code.length = code.length - 1 + 1 by omega, traceFuel, found]
  exact if_pos returns

theorem trace_step (found : p.next code = some (instr, rest)) (goesOn : p.returns instr = false) :
    p.trace code state =
      (p.trace rest (p.execute state instr)).map fun run =>
        (p.stored state instr ++ run.1, run.2) := by
  have shorter := p.shorter found
  unfold trace
  rw [show code.length = code.length - 1 + 1 by omega, traceFuel, found]
  dsimp only
  rw [if_neg (by rw [goesOn]; exact Bool.false_ne_true),
    traceFuel_enough (by omega) (Nat.le_refl _)]

variable (p) in
/-- In front of any other code, a piece stores to the addresses and leads
from one state to the other. -/
def Performs (piece : List Code) (state : State) (stores : List UInt64) (after : State) : Prop :=
  ∀ rest, p.trace (piece ++ rest) state = (p.trace rest after).map fun run =>
    (stores ++ run.1, run.2)

theorem Performs.refl (state : State) : p.Performs [] state [] state := by
  intro rest
  rw [List.nil_append]
  cases p.trace rest state <;> rfl

theorem Performs.trans {first second : List Code} {one two : List UInt64}
    (head : p.Performs first state one middle)
    (tail : p.Performs second middle two after) :
    p.Performs (first ++ second) state (one ++ two) after := by
  intro rest
  rw [List.append_assoc, head, tail, Option.map_map]
  congr 1
  funext run
  exact Prod.ext (List.append_assoc ..).symm rfl

theorem Performs.of_next {piece : List Code}
    (found : ∀ rest, p.next (piece ++ rest) = some (instr, rest))
    (goesOn : p.returns instr = false) (state : State) :
    p.Performs piece state (p.stored state instr) (p.execute state instr) :=
  fun rest => trace_step (found rest) goesOn

variable (p) in
/-- From every state, a piece stores nothing and keeps what is to be kept. -/
def Quiet (keeps : State → State → Prop) (piece : List Code) : Prop :=
  ∀ state, ∃ after, p.Performs piece state [] after ∧ keeps state after

section Quiet

variable {keeps : State → State → Prop}

theorem Quiet.nil (refl : ∀ state, keeps state state) : p.Quiet keeps [] :=
  fun state => ⟨state, .refl state, refl state⟩

theorem Quiet.append (trans : ∀ first second third, keeps first second →
    keeps second third → keeps first third)
    {first second : List Code} (one : p.Quiet keeps first) (two : p.Quiet keeps second) :
    p.Quiet keeps (first ++ second) := by
  intro state
  obtain ⟨middle, head, kept⟩ := one state
  obtain ⟨after, tail, still⟩ := two middle
  exact ⟨after, head.trans tail, trans state middle after kept still⟩

theorem Quiet.of_next {piece : List Code}
    (found : ∀ rest, p.next (piece ++ rest) = some (instr, rest))
    (goesOn : p.returns instr = false) (silent : ∀ state, p.stored state instr = [])
    (kept : ∀ state, keeps state (p.execute state instr)) : p.Quiet keeps piece := by
  intro state
  have performs := Performs.of_next found goesOn state
  rw [silent] at performs
  exact ⟨_, performs, kept state⟩

end Quiet

end Processor

end Foundation
