import Mathlib.Tactic
import VectorTick.Execution.Lowering

/-! What the two code generators share: registers that are handed out and never given back.

Each result of an instruction gets the next register of a pool. When the pool is used
up, all further results go to one and the same register. What is read from there is
right only for the newest of them. The use counts that `analyze_function` takes are read
by nothing and are left out. -/

set_option autoImplicit false

namespace VectorTick.Jit

open Ir ReferenceInterpreter Lowering

/-- Where each value is, and which registers have not been handed out. -/
structure Allocation (Reg : Type) where
  valueToReg : ValueId → Option Reg
  freeRegs : List Reg

namespace Allocation

variable {Reg : Type}

def allocateReg (fallback : Reg) (g : Allocation Reg) : Reg × Allocation Reg :=
  match g.freeRegs.getLast? with
  | none => (fallback, g)
  | some reg => (reg, { g with freeRegs := g.freeRegs.dropLast })

def getReg (fallback : Reg) (g : Allocation Reg) (id : ValueId) : Reg :=
  (g.valueToReg id).getD fallback

def setReg (g : Allocation Reg) (id : ValueId) (reg : Reg) : Allocation Reg :=
  { g with valueToReg := fun asked => if asked = id then some reg else g.valueToReg asked }

end Allocation

def reads (instr : Instruction) : List ValueId :=
  match instr.opcode with
  | .nop | .constI64 | .constU64 | .constU32 | .constBool | .loadColumn => []
  | .select => [operand instr 0, operand instr 1, operand instr 2]
  | _ => [operand instr 0, operand instr 1]

def demanded : List Instruction → List ValueId
  | [] => []
  | instr :: rest =>
    if instr.opcode = .return_ then instr.operands.take 1
    else if instr.result ∈ demanded rest then reads instr ++ demanded rest
    else demanded rest

def defines (instr : Instruction) : Bool :=
  match instr.opcode with
  | .nop | .return_ | .jump | .branch => false
  | _ => true

def results (instrs : List Instruction) : List ValueId := (instrs.filter defines).map (·.result)

/-- Static single assignment: every value is defined once, and no parameter is. A constant
instruction has the opcode that its constructor chooses. -/
structure Ssa (parameters : List ValueId) (instrs : List Instruction) : Prop where
  distinct : (results instrs).Nodup
  apart : ∀ id ∈ results instrs, id ∉ parameters
  constants : ∀ instr ∈ instrs, ∀ constant, instr.payload = .constant constant →
    instr.opcode = (Instruction.constOp constant instr.result).opcode

/-- The results that have a register of their own, oldest first, and the newest of the others. -/
structure Placement where
  kept : List ValueId
  last : Option ValueId
  deriving DecidableEq, Repr

namespace Placement

def empty : Placement := ⟨[], none⟩

def share (p : Placement) (id : ValueId) : Placement := { p with last := some id }

/-- A result gets one of `own` registers, if one is left. -/
def put (own : Nat) (p : Placement) (id : ValueId) : Placement :=
  if p.kept.length < own then { p with kept := p.kept ++ [id] } else p.share id

/-- The value is still where it was put. -/
def Readable (p : Placement) (id : ValueId) : Prop := id ∈ p.kept ∨ p.last = some id

instance (p : Placement) (id : ValueId) : Decidable (p.Readable id) :=
  inferInstanceAs (Decidable (id ∈ p.kept ∨ p.last = some id))

/-- Nothing has been put under this name. -/
def Fresh (p : Placement) (id : ValueId) : Prop := id ∉ p.kept ∧ p.last ≠ some id

end Placement

section Following

variable {Reg : Type} {own : List Reg} {fallback : Reg} {parameters : List ValueId}
  {p : Placement} {g : Allocation Reg}
  {id other : ValueId}

/-- The allocation is what the placement says: `own` are the registers in the order
in which they are handed out. -/
structure Follows (own : List Reg) (fallback : Reg) (parameters : List ValueId)
    (p : Placement) (g : Allocation Reg) :
    Prop where
  free : ∃ spare, (∀ reg ∈ spare, reg = fallback) ∧
    g.freeRegs = spare ++ (own.drop p.kept.length).reverse
  size : p.kept.length ≤ own.length
  kept : ∀ (i : Nat) id, p.kept[i]? = some id → g.valueToReg id = own[i]?
  last : ∀ id, p.last = some id → g.valueToReg id = some fallback
  unplaced : ∀ id ∈ parameters, g.valueToReg id = none

theorem valueToReg_setReg_ne {reg : Reg} (ne : other ≠ id) :
    (g.setReg id reg).valueToReg other = g.valueToReg other :=
  if_neg ne

theorem valueToReg_setReg_self {reg : Reg} :
    (g.setReg id reg).valueToReg id = some reg := if_pos rfl

theorem getReg_setReg_ne {reg : Reg} (ne : other ≠ id) :
    (g.setReg id reg).getReg fallback other = g.getReg fallback other := by
  unfold Allocation.getReg
  rw [valueToReg_setReg_ne ne]

theorem getReg_setReg_self {reg : Reg} : (g.setReg id reg).getReg fallback id = reg := by
  unfold Allocation.getReg
  rw [valueToReg_setReg_self, Option.getD_some]

theorem getReg_last (follows : Follows own fallback parameters p g) (last : p.last = some id) :
    g.getReg fallback id = fallback := by
  unfold Allocation.getReg
  rw [follows.last id last, Option.getD_some]

theorem getReg_parameter (follows : Follows own fallback parameters p g)
    (listed : id ∈ parameters) :
    g.getReg fallback id = fallback := by
  unfold Allocation.getReg
  rw [follows.unplaced id listed, Option.getD_none]

theorem getReg_kept (follows : Follows own fallback parameters p g) (listed : id ∈ p.kept) :
    ∃ i, i < p.kept.length ∧ own[i]? = some (g.getReg fallback id) := by
  obtain ⟨i, low, here⟩ := List.getElem_of_mem listed
  refine ⟨i, low, ?_⟩
  have placed := follows.kept i id (by rw [List.getElem?_eq_getElem low, here])
  have found := List.getElem?_eq_getElem (Nat.lt_of_lt_of_le low follows.size)
  rw [found] at placed ⊢
  unfold Allocation.getReg
  rw [placed, Option.getD_some]

theorem reverse_drop {n : Nat} (room : n < own.length) :
    (own.drop n).reverse = (own.drop (n + 1)).reverse ++ [own[n]] := by
  rw [← List.cons_getElem_drop_succ, List.reverse_cons]

theorem allocateReg_own (follows : Follows own fallback parameters p g)
    (room : p.kept.length < own.length) :
    (g.allocateReg fallback).1 = own[p.kept.length] ∧
      (g.allocateReg fallback).2.valueToReg = g.valueToReg ∧
      ∃ spare, (∀ reg ∈ spare, reg = fallback) ∧
        (g.allocateReg fallback).2.freeRegs = spare ++ (own.drop (p.kept.length + 1)).reverse := by
  obtain ⟨spare, same, free⟩ := follows.free
  rw [reverse_drop room, ← List.append_assoc] at free
  unfold Allocation.allocateReg
  rw [free, List.getLast?_concat]
  exact ⟨rfl, rfl, spare, same, List.dropLast_concat⟩

theorem allocateReg_shared (follows : Follows own fallback parameters p g)
    (full : own.length ≤ p.kept.length) :
    (g.allocateReg fallback).1 = fallback ∧
      (g.allocateReg fallback).2.valueToReg = g.valueToReg ∧
      ∃ spare, (∀ reg ∈ spare, reg = fallback) ∧
        (g.allocateReg fallback).2.freeRegs = spare ++ (own.drop p.kept.length).reverse := by
  obtain ⟨spare, same, free⟩ := follows.free
  have none : own.drop p.kept.length = [] := List.drop_eq_nil_of_le full
  rw [none, List.reverse_nil, List.append_nil] at free
  rw [none, List.reverse_nil]
  unfold Allocation.allocateReg
  rw [free]
  rcases List.eq_nil_or_concat' spare with rfl | ⟨front, reg, rfl⟩
  · exact ⟨rfl, rfl, [], same, free⟩
  · rw [List.getLast?_concat]
    refine ⟨same reg (by simp), rfl, front, fun other listed => same other (by simp [listed]), ?_⟩
    rw [List.append_nil]
    exact List.dropLast_concat

theorem follows_share (follows : Follows own fallback parameters p g) (fresh : p.Fresh id)
    (apart : id ∉ parameters) :
    Follows own fallback parameters (p.share id) (g.setReg id fallback) := by
  refine ⟨follows.free, follows.size, fun i other here => ?_, fun other here =>
    ?_, fun other listed => ?_⟩
  · have ne : other ≠ id := fun same => fresh.1 (same ▸ List.mem_of_getElem? here)
    rw [valueToReg_setReg_ne ne]
    exact follows.kept i other here
  · cases here
    exact valueToReg_setReg_self
  · have ne : other ≠ id := fun same => apart (same ▸ listed)
    rw [valueToReg_setReg_ne ne]
    exact follows.unplaced other listed

theorem follows_put (follows : Follows own fallback parameters p g) (fresh : p.Fresh id)
    (apart : id ∉ parameters) :
    Follows own fallback parameters (p.put own.length id)
      ((g.allocateReg fallback).2.setReg id (g.allocateReg fallback).1) := by
  unfold Placement.put
  split
  case isTrue room =>
    obtain ⟨handed, same, free⟩ := allocateReg_own follows room
    refine ⟨?_, ?_, fun i other here => ?_, fun other here => ?_, fun other listed => ?_⟩
    · rw [List.length_append]
      exact free
    · rw [List.length_append]
      exact room
    · -- An older value, or the new one.
      rcases Nat.lt_or_ge i p.kept.length with low | high
      · rw [List.getElem?_append_left low] at here
        have ne : other ≠ id := fun same => fresh.1 (same ▸ List.mem_of_getElem? here)
        rw [valueToReg_setReg_ne ne, same]
        exact follows.kept i other here
      · rw [List.getElem?_append_right high, List.getElem?_singleton] at here
        split at here
        case isTrue first =>
          cases here
          have last : i = p.kept.length := by omega
          rw [valueToReg_setReg_self, handed, last, List.getElem?_eq_getElem room]
        case isFalse => cases here
    · have ne : other ≠ id := fun same => fresh.2 (same ▸ here)
      rw [valueToReg_setReg_ne ne, same]
      exact follows.last other here
    · have ne : other ≠ id := fun same => apart (same ▸ listed)
      rw [valueToReg_setReg_ne ne, same]
      exact follows.unplaced other listed
  case isFalse full =>
    obtain ⟨handed, same, free⟩ := allocateReg_shared follows (Nat.le_of_not_lt full)
    rw [handed]
    have next : Follows own fallback parameters p (g.allocateReg fallback).2 :=
      ⟨free, follows.size, by rw [same]; exact follows.kept, by rw [same]; exact follows.last,
        by rw [same]; exact follows.unplaced⟩
    exact follows_share next fresh apart

theorem getReg_ne_fallback (follows : Follows own fallback parameters p g)
    (outside : fallback ∉ own)
    (listed : id ∈ p.kept) : g.getReg fallback id ≠ fallback := by
  obtain ⟨i, -, here⟩ := getReg_kept follows listed
  exact fun same => outside (same ▸ List.mem_of_getElem? here)

theorem getReg_ne_allocated (follows : Follows own fallback parameters p g) (distinct : own.Nodup)
    (outside : fallback ∉ own) (room : p.kept.length < own.length) (readable : p.Readable id) :
    g.getReg fallback id ≠ (g.allocateReg fallback).1 := by
  rw [(allocateReg_own follows room).1]
  intro same
  rcases readable with listed | last
  · obtain ⟨i, low, here⟩ := getReg_kept follows listed
    rw [same] at here
    have place := (List.getElem?_eq_some_iff.mp here).2
    exact absurd ((List.Nodup.getElem_inj_iff distinct).mp place) (Nat.ne_of_lt low)
  · rw [getReg_last follows last] at same
    exact outside (same ▸ List.getElem_mem room)

theorem readable_put (follows : Follows own fallback parameters p g) (distinct : own.Nodup)
    (outside : fallback ∉ own)
    (readable : (p.put own.length id).Readable other) (ne : other ≠ id) :
    p.Readable other ∧ g.getReg fallback other ≠ (g.allocateReg fallback).1 := by
  unfold Placement.put at readable
  split at readable
  case isTrue room =>
    have before : p.Readable other := by
      refine readable.imp_left fun listed => ?_
      rcases List.mem_append.mp listed with older | new
      · exact older
      · exact absurd (List.mem_singleton.mp new) ne
    exact ⟨before, getReg_ne_allocated follows distinct outside room before⟩
  case isFalse full =>
    rw [(allocateReg_shared follows (Nat.le_of_not_lt full)).1]
    rcases readable with older | last
    · exact ⟨.inl older, getReg_ne_fallback follows outside older⟩
    · exact absurd (Option.some.inj last).symm ne

theorem allocateReg_mem (follows : Follows own fallback parameters p g) :
    (g.allocateReg fallback).1 = fallback ∨ (g.allocateReg fallback).1 ∈ own := by
  rcases Nat.lt_or_ge p.kept.length own.length with room | full
  · rw [(allocateReg_own follows room).1]
    exact .inr (List.getElem_mem room)
  · exact .inl (allocateReg_shared follows full).1

/-- Every demanded value that is still in its place is right. -/
def Holds (fallback : Reg) (p : Placement) (g : Allocation Reg)
    (values : Values) (demand : List ValueId)
    (regs : Reg → UInt64) : Prop :=
  ∀ id ∈ demand, p.Readable id → ∀ value, values id = some value →
    regs (g.getReg fallback id) = value

variable {values : Values} {before demand : List ValueId}
  {regs after : Reg → UInt64} {value : UInt64}

theorem holds_put (follows : Follows own fallback parameters p g) (distinct : own.Nodup)
    (outside : fallback ∉ own)
    (held : Holds fallback p g values before regs)
    (weaker : ∀ other ∈ demand, other ≠ id → other ∈ before)
    (others : ∀ reg, reg ≠ (g.allocateReg fallback).1 →
      (reg = fallback ∨ reg ∈ own) → after reg = regs reg)
    (written : id ∈ demand → after (g.allocateReg fallback).1 = value) :
    Holds fallback (p.put own.length id)
    ((g.allocateReg fallback).2.setReg id (g.allocateReg fallback).1)
      (setValue values id value) demand after := by
  intro other wanted readable result found
  by_cases same : other = id
  · subst same
    rw [getReg_setReg_self, written wanted]
    unfold setValue at found
    rw [if_pos rfl] at found
    exact Option.some.inj found
  · obtain ⟨readableBefore, apart⟩ := readable_put follows distinct outside readable same
    have unmoved : (g.allocateReg fallback).2.getReg fallback other = g.getReg fallback other := by
      unfold Allocation.getReg Allocation.allocateReg
      split <;> rfl
    have place : g.getReg fallback other = fallback ∨ g.getReg fallback other ∈ own := by
      rcases readableBefore with listed | last
      · obtain ⟨i, -, here⟩ := getReg_kept follows listed
        exact .inr (List.mem_of_getElem? here)
      · exact .inl (getReg_last follows last)
    rw [getReg_setReg_ne same, unmoved, others _ apart place]
    unfold setValue at found
    rw [if_neg same] at found
    exact held other (weaker other wanted same) readableBefore result found

theorem holds_share (follows : Follows own fallback parameters p g) (outside : fallback ∉ own)
    (held : Holds fallback p g values before regs)
    (weaker : ∀ other ∈ demand, other ≠ id → other ∈ before)
    (others : ∀ reg, reg ≠ fallback → after reg = regs reg)
    (written : id ∈ demand → after fallback = value) :
    Holds fallback (p.share id) (g.setReg id fallback) (setValue values id value) demand after := by
  intro other wanted readable result found
  by_cases same : other = id
  · subst same
    rw [getReg_setReg_self, written wanted]
    unfold setValue at found
    rw [if_pos rfl] at found
    exact Option.some.inj found
  · rcases readable with listed | last
    · rw [getReg_setReg_ne same, others _ (getReg_ne_fallback follows outside listed)]
      unfold setValue at found
      rw [if_neg same] at found
      exact held other (weaker other wanted same) (.inl listed) result found
    · exact absurd (Option.some.inj last).symm same

end Following

def emitInstructions {Reg Code : Type}
    (emitInstruction : Allocation Reg → Instruction → Except Stop (List Code × Allocation Reg))
    (g : Allocation Reg) : List Instruction → Except Stop (List Code × Allocation Reg)
  | [] => .ok ([], g)
  | instr :: rest => do
    let (code, g) ← emitInstruction g instr
    let (more, g) ← emitInstructions emitInstruction g rest
    return (code ++ more, g)

/-- A code generator for a processor: its registers, its code and the
state that its code works on. -/
structure Target (Reg Code State : Type) where
  -- In the order in which they are handed out.
  own : List Reg
  -- Given to all further results, and the register of the returned value.
  fallback : Reg
  -- The instructions that give their result to the fallback register at once.
  shares : Opcode → Bool
  -- With the parameters of the function: the instruction reads its operands where they are.
  inPlace : List ValueId → Placement → Instruction → Prop
  emitInstruction : Allocation Reg → Instruction → Except Stop (List Code × Allocation Reg)
  epilogue : List Code
  regs : State → Reg → UInt64

namespace Target

variable {Reg Code State Result : Type} (target : Target Reg Code State)

def place (p : Placement) (instr : Instruction) : Placement :=
  if defines instr then
    if target.shares instr.opcode then p.share instr.result
      else p.put target.own.length instr.result
  else p

/-- A logical operation on these values is the same as the bitwise one. -/
def LogicalIsBitwise (values : Values) (instr : Instruction) : Prop :=
  match instr.opcode, values (operand instr 0), values (operand instr 1) with
  | .and, some a, some b => a &&& b = if a ≠ 0 ∧ b ≠ 0 then 1 else 0
  | .or, some a, some b => a ||| b = if a ≠ 0 ∨ b ≠ 0 then 1 else 0
  | _, _, _ => True

/-- Along the run of the interpreter, everything on which the returned value depends is read where
it is and computed as the interpreter does. -/
def Sound (parameters : List ValueId) (event : CanonicalEvent) : List Instruction →
    Placement → Values → Prop
  | [], _, _ => True
  | instr :: rest, p, values =>
    if instr.opcode = .return_ then ∀ id ∈ instr.operands.take 1, p.Readable id
    else (instr.result ∈ demanded rest → target.inPlace parameters p instr ∧
      LogicalIsBitwise values instr) ∧
      match executeInstruction values instr event with
      | .ok after => Sound parameters event rest (target.place p instr) after
      | .error _ => True

instance (values : Values) (instr : Instruction) : Decidable (LogicalIsBitwise values instr) := by
  unfold LogicalIsBitwise
  split <;> infer_instance

instance decidableSound [∀ parameters p instr, Decidable (target.inPlace parameters p instr)]
    (parameters : List ValueId)
    (event : CanonicalEvent) :
    ∀ instrs p values, Decidable (target.Sound parameters event instrs p values)
  | [], _, _ => isTrue trivial
  | instr :: rest, p, values =>
    have : Decidable (match executeInstruction values instr event with
        | .ok after => target.Sound parameters event rest (target.place p instr) after
        | .error _ => True) :=
      match executeInstruction values instr event with
      | .ok after => decidableSound parameters event rest (target.place p instr) after
      | .error _ => isTrue trivial
    inferInstanceAs
      (Decidable (if instr.opcode = .return_ then ∀ id ∈ instr.operands.take 1, p.Readable id
      else (instr.result ∈ demanded rest → target.inPlace parameters p instr ∧
        LogicalIsBitwise values instr) ∧ _))

/-- What a return gives. -/
def Returns (values : Values) (instr : Instruction) (value : UInt64) : Prop :=
  match instr.operands with
  | [] => value = 0
  | id :: _ => values id = some value

variable {target} {parameters : List ValueId} {event : CanonicalEvent} {p : Placement}
  {g next : Allocation Reg}
  {values after : Values} {instr : Instruction} {code : List Code}

theorem fresh_place {id : ValueId} (fresh : p.Fresh id) (ne : id ≠ instr.result) :
    (target.place p instr).Fresh id := by
  obtain ⟨notKept, notLast⟩ := fresh
  have shared : (p.share instr.result).Fresh id :=
    ⟨notKept, fun same => ne (Option.some.inj same).symm⟩
  unfold place
  split
  · split
    · exact shared
    · unfold Placement.put
      split
      · refine ⟨fun listed => ?_, notLast⟩
        rcases List.mem_append.mp listed with older | new
        · exact notKept older
        · exact ne (List.mem_singleton.mp new)
      · exact shared
  · exact ⟨notKept, notLast⟩

/-- What is known before an instruction. -/
structure Ready (target : Target Reg Code State) (parameters : List ValueId)
    (p : Placement) (g : Allocation Reg)
    (values : Values) (demand : List ValueId) (state : State) : Prop where
  follows : Follows target.own target.fallback parameters p g
  holds : Holds target.fallback p g values demand (target.regs state)
  parameters : ∀ id ∈ parameters, values id = some 0

section Results

variable {before demand : List ValueId} {state state' : State} {value : UInt64}

theorem parameters_setValue (zero : ∀ id ∈ parameters, values id = some 0)
    (apart : instr.result ∉ parameters) :
    ∀ id ∈ parameters, setValue values instr.result value id = some 0 := by
  intro id listed
  have ne : id ≠ instr.result := fun same => apart (same ▸ listed)
  unfold setValue
  rw [if_neg ne]
  exact zero id listed

theorem Ready.put (ready : Ready target parameters p g values before state)
    (distinct : target.own.Nodup)
    (outside : target.fallback ∉ target.own) (weaker : ∀ id ∈ demand, id ∈ before)
    (fresh : p.Fresh instr.result)
    (apart : instr.result ∉ parameters)
    (others : ∀ reg, reg ≠ (g.allocateReg target.fallback).1 →
      (reg = target.fallback ∨ reg ∈ target.own) →
      target.regs state' reg = target.regs state reg)
    (written : instr.result ∈ demand →
      target.regs state' (g.allocateReg target.fallback).1 = value) :
    Ready target parameters (p.put target.own.length instr.result)
      ((g.allocateReg target.fallback).2.setReg instr.result (g.allocateReg target.fallback).1)
      (setValue values instr.result value) demand state' :=
  ⟨follows_put ready.follows fresh apart,
    holds_put ready.follows distinct outside ready.holds
      (fun id wanted _ => weaker id wanted) others written,
    parameters_setValue ready.parameters apart⟩

theorem Ready.share (ready : Ready target parameters p g values before state)
    (outside : target.fallback ∉ target.own)
    (weaker : ∀ id ∈ demand, id ∈ before) (fresh : p.Fresh instr.result)
    (apart : instr.result ∉ parameters)
    (others : ∀ reg, reg ≠ target.fallback → target.regs state' reg = target.regs state reg)
    (written : instr.result ∈ demand → target.regs state' target.fallback = value) :
    Ready target parameters (p.share instr.result) (g.setReg instr.result target.fallback)
      (setValue values instr.result value) demand state' :=
  ⟨follows_share ready.follows fresh apart,
    holds_share ready.follows outside ready.holds
      (fun id wanted _ => weaker id wanted) others written,
    parameters_setValue ready.parameters apart⟩

end Results

/-- The code of every instruction other than a return does what the interpreter does,
and `keeps` what it has to. -/
def StepCorrect (target : Target Reg Code State) (run : List Code → State → Option Result)
    (keeps : State → State → Prop)
    (parameters : List ValueId) (event : CanonicalEvent) : Prop :=
  ∀ {p : Placement} {g next : Allocation Reg} {values after : Values}
    {instr : Instruction} {code : List Code}
    {before demand : List ValueId} {state : State},
    instr.opcode ≠ .return_ → target.emitInstruction g instr = .ok (code, next) →
    Ready target parameters p g values before state → (∀ id ∈ demand, id ∈ before) →
    (instr.result ∈ demand → target.inPlace parameters p instr ∧ LogicalIsBitwise values instr ∧
      ∀ id ∈ reads instr, id ∈ before) →
    (defines instr = true → p.Fresh instr.result ∧ instr.result ∉ parameters) →
    (∀ constant, instr.payload = .constant constant →
      instr.opcode = (Instruction.constOp constant instr.result).opcode) →
    executeInstruction values instr event = .ok after →
    ∃ state', (∀ rest, run (code ++ rest) state = run rest state') ∧ keeps state state' ∧
      Ready target parameters (target.place p instr) next after demand state'

/-- The code of a return leaves the value where it belongs and goes on with the epilogue. -/
def ReturnCorrect (target : Target Reg Code State) (run : List Code → State → Option Result)
    (keeps : State → State → Prop) (parameters : List ValueId) : Prop :=
  ∀ {p : Placement} {g next : Allocation Reg} {values : Values}
    {instr : Instruction} {code : List Code}
    {state : State} {value : UInt64},
    instr.opcode = .return_ → target.emitInstruction g instr = .ok (code, next) →
    Ready target parameters p g values (instr.operands.take 1) state →
    (∀ id ∈ instr.operands.take 1, p.Readable id) → Returns values instr value →
    ∃ state', keeps state state' ∧ target.regs state' target.fallback = value ∧
      ∀ rest, ∃ more, run (code ++ rest) state = run (target.epilogue ++ more) state'

theorem returns_of_executeBlock {rest : List Instruction} {value : UInt64}
    (isReturn : instr.opcode = .return_)
    (executed : executeBlock event (instr :: rest) values = .ok (.returned value, after)) :
    Returns values instr value := by
  unfold executeBlock at executed
  simp only [isReturn] at executed
  cases operands : instr.operands with
  | nil =>
    simp only [operands] at executed
    cases executed
    simp only [Returns, operands]
  | cons id others =>
    simp only [operands] at executed
    cases found : values id with
    | none =>
      rw [found] at executed
      cases executed
    | some word =>
      rw [found] at executed
      cases executed
      simp only [Returns, operands, found]

theorem emitInstructions_cons {emitInstruction : Allocation Reg → Instruction →
    Except Stop (List Code × Allocation Reg)}
    {rest : List Instruction}
    (emitted : emitInstructions emitInstruction g (instr :: rest) = .ok (code, next)) :
    ∃ first middle more, emitInstruction g instr = .ok (first, middle) ∧
      emitInstructions emitInstruction middle rest = .ok (more, next) ∧ code = first ++ more := by
  rw [emitInstructions] at emitted
  cases one : emitInstruction g instr with
  | error stop =>
    rw [one] at emitted
    cases emitted
  | ok made =>
    obtain ⟨first, middle⟩ := made
    rw [one] at emitted
    change (emitInstructions emitInstruction middle rest >>= fun made => _) = _ at emitted
    cases others : emitInstructions emitInstruction middle rest with
    | error stop =>
      rw [others] at emitted
      cases emitted
    | ok made =>
      rw [others] at emitted
      cases emitted
      exact ⟨first, middle, made.1, rfl, others, rfl⟩

theorem ssa_tail {rest : List Instruction} (ssa : Ssa parameters (instr :: rest)) :
    Ssa parameters rest := by
  have part : (results rest).Sublist (results (instr :: rest)) :=
    ((List.sublist_cons_self instr rest).filter defines).map _
  exact ⟨ssa.distinct.sublist part, fun id listed => ssa.apart id (part.subset listed),
    fun later listed => ssa.constants later (List.mem_cons_of_mem instr listed)⟩

theorem results_cons {rest : List Instruction} (isDefinition : defines instr = true) :
    results (instr :: rest) = instr.result :: results rest := by
  unfold results
  rw [List.filter_cons_of_pos isDefinition, List.map_cons]

theorem fresh_tail {rest : List Instruction} (ssa : Ssa parameters (instr :: rest))
    (fresh : ∀ id ∈ results (instr :: rest), p.Fresh id) :
    ∀ id ∈ results rest, (target.place p instr).Fresh id := by
  intro id listed
  by_cases isDefinition : defines instr = true
  · rw [results_cons isDefinition] at fresh
    have distinct := ssa.distinct
    rw [results_cons isDefinition, List.nodup_cons] at distinct
    have ne : id ≠ instr.result := fun same => distinct.1 (same ▸ listed)
    exact fresh_place (fresh id (List.mem_cons_of_mem _ listed)) ne
  · have same : results (instr :: rest) = results rest := by
      unfold results
      rw [List.filter_cons_of_neg isDefinition]
    unfold place
    rw [if_neg isDefinition]
    exact fresh id (same ▸ listed)

theorem emitInstructions_correct (run : List Code → State → Option Result)
    (keeps : State → State → Prop)
    (trans : ∀ {first second third}, keeps first second → keeps second third → keeps first third)
    (step : StepCorrect target run keeps parameters event)
    (returned : ReturnCorrect target run keeps parameters)
    (straight : ∀ {g instr made}, target.emitInstruction g instr = .ok made →
      instr.opcode ≠ .jump ∧ instr.opcode ≠ .branch)
    {instrs : List Instruction} {state : State} {value : UInt64}
    (emitted : emitInstructions target.emitInstruction g instrs = .ok (code, next))
    (ready : Ready target parameters p g values (demanded instrs) state)
    (ssa : Ssa parameters instrs)
    (fresh : ∀ id ∈ results instrs, p.Fresh id)
    (sound : target.Sound parameters event instrs p values)
    (executed : executeBlock event instrs values = .ok (.returned value, after)) :
    ∃ state', keeps state state' ∧ target.regs state' target.fallback = value ∧
      ∀ rest, ∃ more, run (code ++ rest) state = run (target.epilogue ++ more) state' := by
  induction instrs generalizing p g values state code with
  | nil => cases executed
  | cons instr rest ih =>
    obtain ⟨first, middle, more, one, others, rfl⟩ := emitInstructions_cons emitted
    unfold Sound at sound
    by_cases isReturn : instr.opcode = .return_
    · -- What follows the first return is never reached.
      rw [if_pos isReturn] at sound
      have asked : demanded (instr :: rest) = instr.operands.take 1 := if_pos isReturn
      rw [asked] at ready
      obtain ⟨state', kept, right, runs⟩ :=
        returned isReturn one ready sound (returns_of_executeBlock isReturn executed)
      refine ⟨state', kept, right, fun later => ?_⟩
      rw [List.append_assoc]
      exact runs (more ++ later)
    · rw [if_neg isReturn] at sound
      rw [executeBlock_straight ⟨isReturn, straight one⟩] at executed
      cases ran : executeInstruction values instr event with
      | error stop =>
        rw [ran] at executed
        cases executed
      | ok next =>
        rw [ran] at executed sound
        have asked : demanded (instr :: rest) =
            if instr.result ∈ demanded rest then reads instr ++ demanded rest else demanded rest :=
              if_neg isReturn
        have weaker : ∀ id ∈ demanded rest, id ∈ demanded (instr :: rest) := by
          intro id wanted
          rw [asked]
          split
          · exact List.mem_append_right _ wanted
          · exact wanted
        have inPlace : instr.result ∈ demanded rest → target.inPlace parameters p instr ∧
            LogicalIsBitwise values instr ∧ ∀ id ∈ reads instr, id ∈ demanded (instr :: rest) := by
          intro wanted
          refine ⟨(sound.1 wanted).1, (sound.1 wanted).2, fun id read => ?_⟩
          rw [asked, if_pos wanted]
          exact List.mem_append_left _ read
        have new : defines instr = true → p.Fresh instr.result ∧ instr.result ∉ parameters := by
          intro isDefinition
          have listed : instr.result ∈ results (instr :: rest) := by
            rw [results_cons isDefinition]
            exact List.mem_cons_self
          exact ⟨fresh _ listed, ssa.apart _ listed⟩
        obtain ⟨between, runs, kept, readyNext⟩ :=
          step isReturn one ready weaker inPlace new (ssa.constants instr List.mem_cons_self) ran
        obtain ⟨state', keptMore, right, runsMore⟩ :=
          ih others readyNext (ssa_tail ssa) (fresh_tail ssa fresh) sound.2 executed
        refine ⟨state', trans kept keptMore, right, fun later => ?_⟩
        rw [List.append_assoc, runs]
        exact runsMore later

theorem exit_none {instrs : List Instruction} {exit : Option Nat}
    (straight : ∀ instr ∈ instrs, instr.opcode ≠ .jump ∧ instr.opcode ≠ .branch)
    (executed : executeBlock event instrs values = .ok (.next exit, after)) : exit = none := by
  induction instrs generalizing values with
  | nil =>
    cases executed
    rfl
  | cons instr rest ih =>
    by_cases isReturn : instr.opcode = .return_
    · unfold executeBlock at executed
      simp only [isReturn] at executed
      split at executed
      · cases executed
      · split at executed <;> cases executed
    · rw [executeBlock_straight ⟨isReturn, straight instr List.mem_cons_self⟩] at executed
      cases ran : executeInstruction values instr event with
      | error stop =>
        rw [ran] at executed
        cases executed
      | ok next =>
        rw [ran] at executed
        exact ih (fun later listed => straight later (List.mem_cons_of_mem instr listed)) executed

theorem emitted_all {emitInstruction : Allocation Reg → Instruction →
    Except Stop (List Code × Allocation Reg)}
    {instrs : List Instruction}
    (emitted : emitInstructions emitInstruction g instrs = .ok (code, next)) :
    ∀ instr ∈ instrs, ∃ g made, emitInstruction g instr = .ok made := by
  induction instrs generalizing g code with
  | nil => exact fun instr listed => absurd listed List.not_mem_nil
  | cons first rest ih =>
    obtain ⟨code, middle, more, one, others, -⟩ := emitInstructions_cons emitted
    intro instr listed
    rcases List.mem_cons.mp listed with rfl | later
    · exact ⟨g, _, one⟩
    · exact ih others instr later

theorem execute_single {function : Function} {block : BasicBlock}
    (single : function.blocks = [block])
    (straight : ∀ instr ∈ block.instructions, instr.opcode ≠ .jump ∧
      instr.opcode ≠ .branch) {fuel : Nat}
    {value : UInt64} (interpreted : execute function fuel event = .ok value) :
    ∃ after, executeBlock event block.instructions (initialValues function) =
      .ok (.returned value, after) := by
  unfold execute at interpreted
  cases fuel with
  | zero => cases interpreted
  | succ fuel =>
    unfold executeBlocks at interpreted
    simp only [single, Option.bind_some, List.getElem?_cons_zero] at interpreted
    cases ran : executeBlock event block.instructions (initialValues function) with
    | error stop =>
      rw [ran] at interpreted
      cases interpreted
    | ok made =>
      obtain ⟨exit, after⟩ := made
      rw [ran] at interpreted
      cases exit with
      | returned result =>
        cases interpreted
        exact ⟨after, rfl⟩
      | next exit =>
        rw [exit_none straight ran] at interpreted
        change executeBlocks function event fuel none after = .ok value at interpreted
        cases fuel <;> cases interpreted

theorem ready_initial {state : State} (function : Function) {g : Allocation Reg}
    {spare : List Reg} {demand : List ValueId}
    (unplaced : g.valueToReg = fun _ => none) (onlySpare : ∀ reg ∈ spare, reg = target.fallback)
    (free : g.freeRegs = spare ++ target.own.reverse) :
    Ready target function.parameters Placement.empty g (initialValues function) demand state := by
  refine ⟨⟨⟨spare, onlySpare, free⟩, Nat.zero_le _, ?_, ?_, fun id _ => by rw [unplaced]⟩, ?_, ?_⟩
  · exact fun i id here => by cases here
  · exact fun id here => by cases here
  · intro id _ readable
    rcases readable with listed | last
    · cases listed
    · cases last
  · exact fun id listed => if_pos listed

end Target

end VectorTick.Jit
