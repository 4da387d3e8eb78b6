import Mathlib.Tactic
import VectorTick.Foundation.Layout
import VectorTick.Jit.Operations
import VectorTick.Jit.A64Codegen
import VectorTick.Jit.A64Memory

/-! When the code of the AArch64 generator does what the interpreter does.

Fifteen registers are given to one result each; all further results are in X0, one after the
other. Every instruction reads its operands before it writes its result. Columns are read from the
event that X0 points to at the entry. -/

set_option autoImplicit false

namespace VectorTick.Jit.A64CodeGenerator

open Foundation Ir A64 A64Assembler ReferenceInterpreter

/-- Without gaps, each field at the next offset that is a multiple of its size. -/
def eventLayout (event : CanonicalEvent) : Layout :=
  [(0, u64 event.exchangeTsNs), (8, u64 event.receiveTsNs), (16, u64 event.sequence),
    (24, u32 event.instrumentId),
    (28, [event.eventType.value]), (29, [event.side.value]), (30, u16 event.flags),
      (32, u64 event.priceTicks.toUInt64),
    (40, u32 event.quantity), (44, u16 event.venueId), (46, u16 event.sourceId),
      (48, u64 event.tradeOrOrderId)]

/-- The event lies in memory from the address on. -/
def LiesAt (event : CanonicalEvent) (memory : AddressSpace) (address : UInt64) : Prop :=
  memory.peek address 56 = (eventLayout event).bytes

instance (event : CanonicalEvent) (memory : AddressSpace) (address : UInt64) :
    Decidable (LiesAt event memory address) :=
  inferInstanceAs (Decidable (_ = _))

variable {event : CanonicalEvent}

theorem eventLayout_tiles : Layout.Tiles 0 (eventLayout event) := by
  simp [eventLayout, Layout.Tiles]

theorem eventLayout_inside : ∀ field ∈ eventLayout event, field.1 + field.2.length ≤ 56 := by
  simp [eventLayout]

theorem peek_field {memory : AddressSpace} {address : UInt64}
    (lies : LiesAt event memory address) {offset : Nat}
    {piece : Bytes} (listed : (offset, piece) ∈ eventLayout event) :
    memory.peek (address + UInt64.ofNat offset) piece.length = piece := by
  have here := Layout.slices eventLayout_tiles [] (offset, piece) listed
  rw [List.append_nil, ← lies, AddressSpace.slice_peek (eventLayout_inside _ listed)] at here
  exact here

/-- A processor with the event where X19 points to. -/
abbrev Running (event : CanonicalEvent) : Type :=
  { state : A64State // LiesAt event state.memory (state.regs .x19) }

/-- Every instruction reads values that are in their place. -/
def inPlace (_ : List ValueId) (p : Placement) (instr : Instruction) : Prop :=
  ∀ id ∈ reads instr, p.Readable id

instance (parameters : List ValueId) (p : Placement) (instr : Instruction) :
    Decidable (inPlace parameters p instr) :=
  inferInstanceAs (Decidable (∀ id ∈ reads instr, p.Readable id))

def target (event : CanonicalEvent) : Target A64Reg UInt32 (Running event) where
  own := [.x15, .x14, .x13, .x12, .x11, .x10, .x9, .x8, .x7, .x6, .x5, .x4, .x3, .x2, .x1]
  fallback := .x0
  shares := fun _ => false
  inPlace := inPlace
  emitInstruction := emitInstruction
  epilogue := emitEpilogue
  regs := fun state => state.1.regs

instance (parameters : List ValueId) (p : Placement) (instr : Instruction) :
    Decidable ((target event).inPlace parameters p instr) :=
  inferInstanceAs (Decidable (inPlace parameters p instr))

theorem own_distinct : (target event).own.Nodup := by
  change [A64Reg.x15, .x14, .x13, .x12, .x11, .x10, .x9, .x8, .x7, .x6, .x5,
    .x4, .x3, .x2, .x1].Nodup
  decide

theorem x0_outside : (target event).fallback ∉ (target event).own := by
  change A64Reg.x0 ∉ [A64Reg.x15, .x14, .x13, .x12, .x11, .x10, .x9, .x8, .x7, .x6,
    .x5, .x4, .x3, .x2, .x1]
  decide

/-- Of the registers that results are given to. -/
def Usable (reg : A64Reg) : Prop := reg ≠ .xzr ∧ reg ≠ .x19

theorem usable_of_own : ∀ reg ∈ A64Reg.x0 :: (target event).own, Usable reg := by
  change ∀ reg ∈ [A64Reg.x0, .x15, .x14, .x13, .x12, .x11, .x10, .x9, .x8, .x7, .x6,
    .x5, .x4, .x3, .x2, .x1],
    reg ≠ A64Reg.xzr ∧ reg ≠ A64Reg.x19
  decide

/-- The memory and the stack pointer stay. -/
def Keeps (state after : Running event) : Prop :=
  after.1.memory = state.1.memory ∧ after.1.regs .sp = state.1.regs .sp

theorem Keeps.trans {first second third : Running event} (one : Keeps first second)
    (two : Keeps second third) :
    Keeps first third :=
  ⟨two.1.trans one.1, two.2.trans one.2⟩

/-- A piece of code that writes a usable register leaves the event where it is. -/
theorem running_of_writes {dst : A64Reg} {value : UInt64} {state : Running event} {after : A64State}
    (usable : Usable dst) (writes : Writes dst value state.1 after) :
    ∃ running : Running event, running.1 = after ∧ Keeps state running := by
  have lies : LiesAt event after.memory (after.regs .x19) := by
    rw [writes.memory, writes.others .x19 usable.2.symm]
    exact state.2
  exact ⟨⟨after, lies⟩, rfl, writes.memory, writes.others .sp usable.1.symm⟩

theorem does_load {dst : A64Reg} (real : dst ≠ .xzr) (state : Running event)
    {word : UInt32} {size offset : Nat}
    {piece : Bytes} (decoded : decode word = some (.load size dst .x19 (UInt64.ofNat offset)))
    (listed : (offset, piece) ∈ eventLayout event) (width : piece.length = size) {value : UInt64}
    (same : leValue piece = value.toNat) :
    ∃ after, Does [word] state.1 after ∧ Writes dst value state.1 after := by
  refine ⟨_, does_of_decode decoded (by simp) state.1, ?_⟩
  have loaded : UInt64.ofNat
      (leValue (state.1.memory.peek (state.1.regs .x19 + UInt64.ofNat offset) size)) = value := by
    rw [← width, peek_field state.2 listed, same, UInt64.ofNat_toNat]
  rw [← loaded]
  exact writes_write real state.1 _ state.1.flags

theorem leValue_u64 (word : UInt64) : leValue (u64 word) = word.toNat :=
  leValue_le 8 _ word.toNat_lt

theorem leValue_u32 (word : UInt32) : leValue (u32 word) = word.toUInt64.toNat :=
  leValue_le 4 _ word.toNat_lt

theorem leValue_u16 (word : UInt16) : leValue (u16 word) = word.toUInt64.toNat :=
  leValue_le 2 _ word.toNat_lt

theorem leValue_byte (word : UInt8) : leValue [word] = word.toUInt64.toNat := rfl

theorem decode_ldrX64 : ∀ dst, ∀ offset ∈ [0, 8, 16, 32, 48],
    decode (ldrX64 dst .x19 (Int32.ofNat offset)) =
      some (.load 8 dst .x19 (UInt64.ofNat offset)) := by
  intro dst offset known
  have inside : ∀ offset ∈ ([0, 8, 16, 32, 48] : List Nat), offset < 2 ^ 31 ∧
      Reaches 8 offset := by decide
  exact encodes_ldrX64.decode (inside offset known).1 (inside offset known).2 dst .x19

theorem decode_ldrW32 : ∀ dst, ∀ offset ∈ [24, 40],
    decode (ldrW32 dst .x19 (Int32.ofNat offset)) =
      some (.load 4 dst .x19 (UInt64.ofNat offset)) := by
  intro dst offset known
  have inside : ∀ offset ∈ ([24, 40] : List Nat), offset < 2 ^ 31 ∧ Reaches 4 offset := by decide
  exact encodes_ldrW32.decode (inside offset known).1 (inside offset known).2 dst .x19

theorem decode_ldrh : ∀ dst, ∀ offset ∈ [30, 44, 46],
    decode (ldrh dst .x19 (Int32.ofNat offset)) =
      some (.load 2 dst .x19 (UInt64.ofNat offset)) := by
  intro dst offset known
  have inside : ∀ offset ∈ ([30, 44, 46] : List Nat), offset < 2 ^ 31 ∧
      Reaches 2 offset := by decide
  exact encodes_ldrh.decode (inside offset known).1 (inside offset known).2 dst .x19

theorem decode_ldrb : ∀ dst, ∀ offset ∈ [28, 29],
    decode (ldrb dst .x19 (Int32.ofNat offset)) =
      some (.load 1 dst .x19 (UInt64.ofNat offset)) := by
  intro dst offset known
  have inside : ∀ offset ∈ ([28, 29] : List Nat), offset < 2 ^ 31 ∧ Reaches 1 offset := by decide
  exact encodes_ldrb.decode (inside offset known).1 (inside offset known).2 dst .x19

theorem does_loadColumn {dst : A64Reg} (real : dst ≠ .xzr) (cid : UInt32) (state : Running event) :
    ∃ after, Does (loadColumn dst cid) state.1 after ∧
      Writes dst (loadColumnValue cid event) state.1 after := by
  have eight : ∀ offset ∈ [0, 8, 16, 32, 48], ∀ word, (offset, u64 word) ∈ eventLayout event →
      ∃ after, Does [ldrX64 dst .x19 (Int32.ofNat offset)] state.1 after ∧
        Writes dst word state.1 after :=
    fun offset known word listed =>
      does_load real state (decode_ldrX64 dst offset known) listed (length_u64 word)
        (leValue_u64 word)
  have four : ∀ offset ∈ [24, 40], ∀ word, (offset, u32 word) ∈ eventLayout event →
      ∃ after, Does [ldrW32 dst .x19 (Int32.ofNat offset)] state.1 after ∧
        Writes dst word.toUInt64 state.1 after :=
    fun offset known word listed =>
      does_load real state (decode_ldrW32 dst offset known) listed (length_u32 word)
        (leValue_u32 word)
  have two : ∀ offset ∈ [30, 44, 46], ∀ word, (offset, u16 word) ∈ eventLayout event →
      ∃ after, Does [ldrh dst .x19 (Int32.ofNat offset)] state.1 after ∧
        Writes dst word.toUInt64 state.1 after :=
    fun offset known word listed =>
      does_load real state (decode_ldrh dst offset known) listed (length_u16 word)
        (leValue_u16 word)
  have one : ∀ offset ∈ [28, 29], ∀ word, (offset, [word]) ∈ eventLayout event →
      ∃ after, Does [ldrb dst .x19 (Int32.ofNat offset)] state.1 after ∧
        Writes dst word.toUInt64 state.1 after :=
    fun offset known word listed =>
      does_load real state (decode_ldrb dst offset known) listed rfl (leValue_byte word)
  unfold loadColumn loadColumnValue
  generalize cid.toNat = column
  match column with
  | 0 => exact eight 0 (by decide) event.exchangeTsNs (by simp [eventLayout])
  | 1 => exact eight 8 (by decide) event.receiveTsNs (by simp [eventLayout])
  | 2 => exact eight 16 (by decide) event.sequence (by simp [eventLayout])
  | 3 => exact four 24 (by decide) event.instrumentId (by simp [eventLayout])
  | 4 => exact one 28 (by decide) event.eventType.value (by simp [eventLayout])
  | 5 => exact one 29 (by decide) event.side.value (by simp [eventLayout])
  | 6 => exact two 30 (by decide) event.flags (by simp [eventLayout])
  | 7 => exact eight 32 (by decide) event.priceTicks.toUInt64 (by simp [eventLayout])
  | 8 => exact four 40 (by decide) event.quantity (by simp [eventLayout])
  | 9 => exact two 44 (by decide) event.venueId (by simp [eventLayout])
  | 10 => exact two 46 (by decide) event.sourceId (by simp [eventLayout])
  | 11 => exact eight 48 (by decide) event.tradeOrOrderId (by simp [eventLayout])
  | _ + 12 => exact does_movImm64 real 0 state.1

theorem and_low {word mask : UInt64} {bits : Nat} (ones : mask.toNat = 2 ^ bits - 1)
    (small : word.toNat < 2 ^ bits) :
    word &&& mask = word := by
  apply UInt64.toNat.inj
  rw [UInt64.toNat_and, ones, Nat.and_two_pow_sub_one_of_lt_two_pow small]

theorem and_whole (word : UInt32) : word.toUInt64 &&& 0xFFFFFFFF = word.toUInt64 :=
  @and_low _ _ 32 rfl word.toNat_lt

theorem upper_part_ne_zero (word : UInt32) : word > 0xFFFF ↔ word.toUInt64 &&& 0xFFFF0000 ≠ 0 := by
  rw [gt_iff_lt, ← UInt32.not_le, not_iff_not]
  constructor
  · intro low
    have narrow : word.toUInt64 &&& 0xFFFF = word.toUInt64 :=
      @and_low _ _ 16 rfl (Nat.lt_succ_of_le (UInt32.le_iff_toNat_le.mp low))
    rw [← narrow, UInt64.and_assoc]
    exact UInt64.and_zero
  · intro zero
    have parts : word.toUInt64 &&& 0xFFFFFFFF =
        (word.toUInt64 &&& 0xFFFF) ||| (word.toUInt64 &&& 0xFFFF0000) :=
      and_or_distrib word.toUInt64 0xFFFF 0xFFFF0000
    rw [zero, and_whole, UInt64.or_zero] at parts
    have bound : word.toUInt64.toNat ≤ 0xFFFF := by
      rw [parts, UInt64.toNat_and]
      exact Nat.and_le_right
    exact UInt32.le_iff_toNat_le.mpr bound

theorem upper_part (word : UInt32) :
    ((word.toUInt64 >>> 16) &&& 0xFFFF).toUInt16 = (word >>> 16).toUInt16 := by
  have bound := word.toNat_lt
  have shifted : (word >>> 16).toUInt16.toUInt64 = word.toUInt64 >>> 16 := by
    apply UInt64.toNat.inj
    simp [Nat.shiftRight_eq_div_pow]
    omega
  have small : (word.toUInt64 >>> 16).toNat < 2 ^ 16 := by
    simp [Nat.shiftRight_eq_div_pow]
    omega
  apply UInt16.toUInt64_inj.mp
  rw [low_part, shifted, and_low rfl small]

/-- The code for a constant of 32 bits is the code for the same constant of 64 bits. -/
theorem moveU32_eq (dst : A64Reg) (constant : Constant) :
    moveU32 dst constant = movX64Imm64 dst constant.getU32.toUInt64 := by
  unfold moveU32 movX64Imm64
  generalize constant.getU32 = word
  have low : (word &&& 0xFFFF).toUInt16 = (word.toUInt64 &&& 0xFFFF).toUInt16 := rfl
  have third : word.toUInt64 &&& 0xFFFF00000000 = 0 := by
    rw [← and_whole, UInt64.and_assoc]
    exact UInt64.and_zero
  have last : word.toUInt64 &&& 0xFFFF000000000000 = 0 := by
    rw [← and_whole, UInt64.and_assoc]
    exact UInt64.and_zero
  simp only [low, upper_part, upper_part_ne_zero, third, last, ne_eq, not_true_eq_false,
    if_false, List.append_nil]

variable {parameters : List ValueId} {p : Placement}
  {g next : Allocation A64Reg} {values after : Values}
  {instr : Instruction} {code : List UInt32} {before demand : List ValueId} {state : Running event}

/-- What `StepCorrect` promises. -/
def StepDone (parameters : List ValueId) (code : List UInt32) (p : Placement)
    (next : Allocation A64Reg) (after : Values)
    (demand : List ValueId) (state : Running event) : Prop :=
  ∃ state', Does code state.1 state'.1 ∧ Keeps state state' ∧
    Target.Ready (target event) parameters p next after demand state'

theorem allocated_usable (ready : Target.Ready (target event) parameters p g values before state) :
    Usable (allocateReg g).1 := by
  rcases allocateReg_mem ready.follows with x0 | own
  · exact @usable_of_own event _
      (by rw [show (allocateReg g).1 = .x0 from x0]; exact List.mem_cons_self)
  · exact usable_of_own _ (List.mem_cons_of_mem _ own)

theorem stepDone_put {value written : UInt64} {state' : A64State}
    (ready : Target.Ready (target event) parameters p g values before state)
    (weaker : ∀ id ∈ demand, id ∈ before)
    (fresh : p.Fresh instr.result) (apart : instr.result ∉ parameters)
    (does : Does code state.1 state')
    (writes : Writes (allocateReg g).1 written state.1 state')
    (right : instr.result ∈ demand → written = value) :
    StepDone parameters code (p.put 15 instr.result)
    ((allocateReg g).2.setReg instr.result (allocateReg g).1)
      (setValue values instr.result value) demand state := by
  obtain ⟨running, rfl, keeps⟩ := running_of_writes (allocated_usable ready) writes
  refine ⟨running, does, keeps, ?_⟩
  exact ready.put own_distinct x0_outside weaker fresh apart (fun reg ne _ => writes.others reg ne)
    fun wanted => writes.here.trans (right wanted)

theorem read_operand {id : ValueId} {word : UInt64}
    (ready : Target.Ready (target event) parameters p g values before state)
    (asked : id ∈ before) (readable : p.Readable id) (has : values id = some word) :
    read state.1 (getReg g id) = word := by
  have place : getReg g id ∈ A64Reg.x0 :: (target event).own := by
    rcases readable with kept | last
    · obtain ⟨i, -, here⟩ := getReg_kept ready.follows kept
      exact List.mem_cons_of_mem _ (List.mem_of_getElem? here)
    · have x0 : getReg g id = .x0 := getReg_last ready.follows last
      rw [x0]
      exact List.mem_cons_self
  rw [read_real (usable_of_own _ place).1]
  exact ready.holds id asked readable word has

/-- The piece does an operation on two registers and puts the result into a third. -/
def Operates (piece : A64Reg → A64Reg → A64Reg → List UInt32) (op : Opcode) : Prop :=
  ∀ dst lhs rhs state, dst ≠ .xzr → ∃ after, Does (piece dst lhs rhs) state after ∧
    Writes dst (wordOperation op (read state lhs) (read state rhs)) state after

theorem operates_data {piece : A64Reg → A64Reg → A64Reg → UInt32} {op : Opcode} (data : DataOp)
    (decoded : ∀ dst lhs rhs, decode (piece dst lhs rhs) = some (.data data dst lhs rhs))
    (same : ∀ a b, compute data a b = wordOperation op a b) :
    Operates (fun dst lhs rhs => [piece dst lhs rhs]) op := by
  intro dst lhs rhs state real
  rw [← same]
  exact does_data real state (decoded dst lhs rhs)

theorem operates_compare {cond : A64Condition} {op : Opcode} (proper : cond ≠ .al ∧ cond ≠ .nv)
    (same : ∀ a b, (if conditionHolds (subFlags a b) cond then 1 else 0) = wordOperation op a b) :
    Operates (fun dst lhs rhs => [cmpX64X64 lhs rhs, csetX64 dst cond]) op := by
  intro dst lhs rhs state real
  rw [← same]
  exact does_compare real state lhs rhs proper

theorem step_binary {piece : A64Reg → A64Reg → A64Reg → List UInt32}
    (known : hasWordOperation instr.opcode = true)
    (operates : Operates piece instr.opcode)
    (emitted : emitResult g instr
      (fun dst => piece dst (getReg g (operand instr 0)) (getReg g (operand instr 1))) =
        .ok (code, next))
    (ready : Target.Ready (target event) parameters p g values before state)
    (weaker : ∀ id ∈ demand, id ∈ before)
    (found : instr.result ∈ demand → inPlace parameters p instr ∧
      Target.LogicalIsBitwise values instr ∧
      ∀ id ∈ reads instr, id ∈ before)
    (fresh : p.Fresh instr.result) (apart : instr.result ∉ parameters)
    (executed : executeInstruction values instr event = .ok after) :
    StepDone parameters code (p.put 15 instr.result) next after demand state := by
  cases emitted
  obtain ⟨a, b, value, first, second, rfl, agrees⟩ := execute_operation known executed
  obtain ⟨state', does, writes⟩ :=
    operates (allocateReg g).1 (getReg g (operand instr 0)) (getReg g (operand instr 1))
    state.1 (allocated_usable ready).1
  refine stepDone_put ready weaker fresh apart does writes fun wanted => ?_
  obtain ⟨place, logical, asked⟩ := found wanted
  unfold inPlace at place
  rw [reads_binary known] at place asked
  rw [agrees logical, read_operand ready (asked _ (by simp)) (place _ (by simp)) first,
    read_operand ready (asked _ (by simp)) (place _ (by simp)) second]

/-- The condition that a comparison is tested for. -/
def conditionOf : Opcode → A64Condition
  | .eqU64 | .eqI64 => .eq
  | .neU64 | .neI64 => .ne
  | .ltU64 => .lo
  | .leU64 => .ls
  | .gtU64 => .hi
  | .geU64 => .hs
  | .ltI64 => .lt
  | .leI64 => .le
  | .gtI64 => .gt
  | _ => .ge

def isComparison : Opcode → Bool
  | .eqU64 | .eqI64 | .neU64 | .neI64 | .ltU64 | .leU64 | .gtU64 | .geU64 | .ltI64 |
    .leI64 | .gtI64 | .geI64 => true
  | _ => false

theorem holds_conditionOf {op : Opcode} (known : isComparison op = true) (a b : UInt64) :
    (if conditionHolds (subFlags a b) (conditionOf op) then 1 else 0) = wordOperation op a b := by
  have word : ∀ {answer : Bool} {claim : Prop} [Decidable claim], (answer = true ↔ claim) →
      (if answer = true then (1 : UInt64) else 0) = truthWord (decide claim) := by
    intro answer claim _ same
    unfold truthWord
    rw [Bool.eq_iff_iff.mpr (same.trans decide_eq_true_iff.symm)]
  -- The negation of a condition that is known.
  have not : ∀ {answer : Bool} {claim other : Prop}, (answer = true ↔ claim) → (other ↔ ¬ claim) →
      ((!answer) = true ↔ other) := by
    intro answer claim other same opposite
    rw [opposite, ← same, Bool.not_eq_true', Bool.not_eq_true]
  cases op <;> first | exact absurd known (by decide) | skip
  case eqU64 => exact word equal_iff
  case eqI64 => exact word equal_iff
  case neU64 => exact word (not equal_iff Iff.rfl)
  case neI64 => exact word (not equal_iff Iff.rfl)
  case ltU64 => exact word (holds_lo a b)
  case leU64 => exact word (not (holds_hi a b) UInt64.not_lt.symm)
  case gtU64 => exact word (holds_hi a b)
  case geU64 => exact word (holds_hs a b)
  case ltI64 => exact word (holds_lt a b)
  case leI64 => exact word (not (holds_gt a b) Int64.not_lt.symm)
  case gtI64 => exact word (holds_gt a b)
  case geI64 => exact word (holds_ge a b)

theorem step_select (isSelect : instr.opcode = .select)
    (emitted : emitResult g instr (fun dst => [cmpX64X64 (getReg g (operand instr 0)) .xzr,
      cselX64 dst (getReg g (operand instr 1))
      (getReg g (operand instr 2)) .ne]) = .ok (code, next))
    (ready : Target.Ready (target event) parameters p g values before state)
    (weaker : ∀ id ∈ demand, id ∈ before)
    (found : instr.result ∈ demand → inPlace parameters p instr ∧
      Target.LogicalIsBitwise values instr ∧
      ∀ id ∈ reads instr, id ∈ before)
    (fresh : p.Fresh instr.result) (apart : instr.result ∉ parameters)
    (executed : executeInstruction values instr event = .ok after) :
    StepDone parameters code (p.put 15 instr.result) next after demand state := by
  cases emitted
  obtain ⟨cond, trueVal, falseVal, first, second, third, rfl⟩ := execute_select isSelect executed
  obtain ⟨state', does, writes⟩ :=
    does_select (allocated_usable ready).1 state.1 (getReg g (operand instr 0))
    (getReg g (operand instr 1)) (getReg g (operand instr 2))
  refine stepDone_put ready weaker fresh apart does writes fun wanted => ?_
  obtain ⟨place, -, asked⟩ := found wanted
  have three : reads instr = [operand instr 0, operand instr 1, operand instr 2] := by
    unfold reads
    rw [isSelect]
  unfold inPlace at place
  rw [three] at place asked
  rw [read_operand ready (asked _ (by simp)) (place _ (by simp)) first,
    read_operand ready (asked _ (by simp)) (place _ (by simp)) second,
    read_operand ready (asked _ (by simp)) (place _ (by simp)) third]

theorem step_leaf {fill : A64Reg → List UInt32} {value : UInt64}
    (emitted : emitResult g instr fill = .ok (code, next))
    (fills : ∀ dst, dst ≠ .xzr → ∃ state', Does (fill dst) state.1 state' ∧
      Writes dst value state.1 state')
    (ready : Target.Ready (target event) parameters p g values before state)
    (weaker : ∀ id ∈ demand, id ∈ before)
    (fresh : p.Fresh instr.result) (apart : instr.result ∉ parameters) :
    StepDone parameters code (p.put 15 instr.result) next
      (setValue values instr.result value) demand state := by
  cases emitted
  obtain ⟨state', does, writes⟩ := fills (allocateReg g).1 (allocated_usable ready).1
  exact stepDone_put ready weaker fresh apart does writes fun _ => rfl

theorem place_put (isDefinition : defines instr = true) :
    (target event).place p instr = p.put 15 instr.result := by
  unfold Target.place
  rw [if_pos isDefinition,
    if_neg (show ¬ (target event).shares instr.opcode = true from Bool.false_ne_true)]
  rfl

/-- Code is run on the state without what is known of it. -/
def runOn (code : List UInt32)
    (state : Running event) : Option (UInt64 × A64State) := run code state.1

theorem step_correct : Target.StepCorrect (target event) runOn Keeps parameters event := by
  intro p g next values after instr code before demand state notReturn emitted ready weaker
    found new constants executed
  have emitted : emitInstruction g instr = .ok (code, next) := emitted
  change StepDone parameters code ((target event).place p instr) next after demand state
  have binary : ∀ {piece op}, instr.opcode = op → hasWordOperation op = true → Operates piece op →
      emitResult g instr (fun dst => piece dst (getReg g (operand instr 0))
        (getReg g (operand instr 1))) =
        .ok (code, next) →
      StepDone parameters code ((target event).place p instr) next after demand state := by
    rintro piece op rfl known operates made
    obtain ⟨fresh, apart⟩ := new (defines_of_hasWordOperation known)
    rw [place_put (defines_of_hasWordOperation known)]
    exact step_binary known operates made ready weaker found fresh apart executed
  have comparison : ∀ {op}, instr.opcode = op → hasWordOperation op = true →
      isComparison op = true →
      emitCompare g instr (conditionOf op) = .ok (code, next) →
      StepDone parameters code ((target event).place p instr) next after demand state := by
    intro op isOp known isOne made
    have proper : conditionOf op ≠ .al ∧ conditionOf op ≠ .nv := by
      cases op <;> first | exact absurd isOne (by decide) | exact ⟨by decide, by decide⟩
    exact binary isOp known (operates_compare proper (holds_conditionOf isOne)) made
  have leaf : ∀ {fill value}, defines instr = true → emitResult g instr fill = .ok (code, next) →
      (∀ dst, dst ≠ .xzr → ∃ state', Does (fill dst) state.1 state' ∧
        Writes dst value state.1 state') →
      after = setValue values instr.result value →
      StepDone parameters code ((target event).place p instr) next after demand state := by
    rintro fill value isDefinition made fills rfl
    obtain ⟨fresh, apart⟩ := new isDefinition
    rw [place_put isDefinition]
    exact step_leaf made fills ready weaker fresh apart
  have constant : ∀ {move}, instr.opcode = .constU64 ∨ instr.opcode = .constI64 ∨
      instr.opcode = .constU32 →
      emitConstant g instr move = .ok (code, next) →
      (∀ constant, instr.payload = .constant constant → ∀ dst, dst ≠ .xzr →
        ∃ state', Does (move dst constant) state.1 state' ∧
          Writes dst constant.getU64 state.1 state') →
      StepDone parameters code ((target event).place p instr) next after demand state := by
    intro move known made moves
    have isDefinition : defines instr = true := by
      unfold defines
      rcases known with op | op | op <;> rw [op]
    unfold emitConstant at made
    split at made
    case h_1 constant payload =>
      exact leaf isDefinition made (moves constant payload)
        (execute_constant known executed payload)
    case h_2 => cases made
  unfold emitInstruction at emitted
  cases op : instr.opcode <;> simp only [op] at emitted <;> first | cases emitted; done | skip
  case nop =>
    cases emitted
    unfold executeInstruction at executed
    simp only [op] at executed
    cases executed
    have stays : (target event).place p instr = p := if_neg (by unfold defines; rw [op]; decide)
    rw [stays]
    refine ⟨state, does_of_decode decode_nop (by simp) state.1, ⟨rfl, rfl⟩,
      ready.follows, ?_, ready.parameters⟩
    exact fun id wanted => ready.holds id (weaker id wanted)
  case return_ => exact absurd op notReturn
  case constU64 =>
    exact constant (.inl op) emitted fun value _ dst real => does_movImm64 real value.getU64 state.1
  case constI64 =>
    exact constant (.inr (.inl op)) emitted fun value _ dst real =>
      does_movImm64 real value.getU64 state.1
  case constU32 =>
    refine constant (.inr (.inr op)) emitted fun value payload dst real => ?_
    rw [moveU32_eq, getU32_toUInt64 ((constants value payload).symm.trans op)]
    exact does_movImm64 real value.getU64 state.1
  case loadColumn =>
    split at emitted
    case h_1 cid payload =>
      have isDefinition : defines instr = true := by
        unfold defines
        rw [op]
      refine leaf isDefinition emitted (fun dst real => does_loadColumn real cid state) ?_
      unfold executeInstruction at executed
      simp only [op, payload] at executed
      exact (Except.ok.inj executed).symm
    case h_2 => cases emitted
  case select =>
    have isDefinition : defines instr = true := by
      unfold defines
      rw [op]
    obtain ⟨fresh, apart⟩ := new isDefinition
    rw [place_put isDefinition]
    exact step_select op emitted ready weaker found fresh apart executed
  case addU64 => exact binary op rfl (operates_data .add decode_addX64X64X64 fun _ _ => rfl) emitted
  case addI64 => exact binary op rfl (operates_data .add decode_addX64X64X64 fun _ _ => rfl) emitted
  case subU64 => exact binary op rfl (operates_data .sub decode_subX64X64X64 fun _ _ => rfl) emitted
  case subI64 => exact binary op rfl (operates_data .sub decode_subX64X64X64 fun _ _ => rfl) emitted
  case mulU64 => exact binary op rfl (operates_data .mul decode_mulX64X64X64 fun _ _ => rfl) emitted
  case mulI64 => exact binary op rfl (operates_data .mul decode_mulX64X64X64 fun _ _ => rfl) emitted
  case divU64 =>
    exact binary op rfl (operates_data .udiv decode_udivX64X64X64 fun _ _ => rfl) emitted
  case divI64 =>
    exact binary op rfl (operates_data .sdiv decode_sdivX64X64X64 fun _ _ => rfl) emitted
  case and => exact binary op rfl (operates_data .and decode_andX64X64X64 fun _ _ => rfl) emitted
  case bitAnd => exact binary op rfl (operates_data .and decode_andX64X64X64 fun _ _ => rfl) emitted
  case or => exact binary op rfl (operates_data .orr decode_orrX64X64X64 fun _ _ => rfl) emitted
  case bitOr => exact binary op rfl (operates_data .orr decode_orrX64X64X64 fun _ _ => rfl) emitted
  case bitXor => exact binary op rfl (operates_data .eor decode_eorX64X64X64 fun _ _ => rfl) emitted
  all_goals exact comparison op rfl rfl emitted

theorem return_correct : Target.ReturnCorrect (target event) runOn Keeps parameters := by
  intro p g next values instr code state value isReturn emitted ready readable returns
  have emitted : emitInstruction g instr = .ok (code, next) := emitted
  unfold emitInstruction at emitted
  simp only [isReturn] at emitted
  cases emitted
  unfold Target.Returns at returns
  unfold emitReturn runOn
  have usable : Usable .x0 := @usable_of_own event _ List.mem_cons_self
  cases operands : instr.operands with
  | nil =>
    rw [operands] at returns
    obtain ⟨zero, does, writes⟩ := does_movImm64 usable.1 0 state.1
    obtain ⟨running, rfl, keeps⟩ := running_of_writes usable writes
    refine ⟨running, keeps, ?_, fun rest => ⟨rest, ?_⟩⟩
    · rw [returns]
      exact writes.here
    · rw [List.append_assoc, does]
      rfl
  | cons id others =>
    rw [operands] at returns ready readable
    have right : read state.1 (getReg g id) = value :=
      read_operand ready (List.mem_cons_self) (readable id List.mem_cons_self) returns
    by_cases x0 : getReg g id = .x0
    · refine ⟨state, ⟨rfl, rfl⟩, ?_, fun rest => ⟨rest, ?_⟩⟩
      · rw [← right, x0]
        rfl
      · simp only [x0, ne_eq, not_true_eq_false, if_false, List.nil_append]
        rfl
    · obtain ⟨moved, does, writes⟩ := does_mov usable.1 state.1 (getReg g id)
      obtain ⟨running, rfl, keeps⟩ := running_of_writes usable writes
      refine ⟨running, keeps, ?_, fun rest => ⟨rest, ?_⟩⟩
      · rw [← right]
        exact writes.here
      · simp only [ne_eq, x0, not_false_eq_true, if_true]
        rw [List.append_assoc, does]
        rfl

theorem straight_of_emit {made : List UInt32 × Allocation A64Reg}
    (emitted : emitInstruction g instr = .ok made) :
    instr.opcode ≠ .jump ∧ instr.opcode ≠ .branch := by
  constructor <;> intro op <;> unfold emitInstruction at emitted <;>
    simp only [op] at emitted <;> cases emitted

/-- The stack has grown by `depth` bytes from an address. The word below the address is still
there, and so are the event and the pointer to it. -/
structure Grown (address : UInt64) (word : Bytes) (event : CanonicalEvent)
    (pointer : UInt64) (depth : Nat)
    (state : A64State) : Prop where
  top : state.regs .sp = address - UInt64.ofNat depth
  saved : state.memory.peek (address - 8) 8 = word
  argument : state.regs .x0 = pointer
  lies : LiesAt event state.memory pointer

section Stack

variable {address pointer : UInt64} {word : Bytes} {depth : Nat} {machine : A64State}

theorem apart_pair (apart : AddressSpace.Apart pointer 56 (address - 96) 96)
    (inside : depth + 16 ≤ 96) :
    AddressSpace.Apart pointer 56 (address - UInt64.ofNat (depth + 16)) 16 := by
  intro i near
  have far := apart i near
  have shifted : pointer + UInt64.ofNat i - (address - UInt64.ofNat (depth + 16)) =
      (pointer + UInt64.ofNat i - (address - 96)) - UInt64.ofNat (80 - depth) := by
    have split : (96 : UInt64) = UInt64.ofNat (80 - depth) + UInt64.ofNat (depth + 16) := by
      rw [← UInt64.ofNat_add, show 80 - depth + (depth + 16) = 96 by omega]
      rfl
    rw [split]
    grind
  have small : (UInt64.ofNat (80 - depth)).toNat = 80 - depth := by
    rw [UInt64.toNat_ofNat', Nat.mod_eq_of_lt (by omega)]
  have below : UInt64.ofNat (80 - depth) ≤ pointer + UInt64.ofNat i - (address - 96) := by
    rw [UInt64.le_iff_toNat_le, small]
    omega
  rw [shifted, UInt64.toNat_sub_of_le _ _ below, small]
  omega

theorem top_push (machine : A64State) (src1 src2 : A64Reg) :
    (execute machine (.stpPre src1 src2 .sp (-16))).regs .sp = machine.regs .sp + (-16) := by
  change Function.update machine.regs .sp (machine.regs .sp + (-16)) .sp = _
  exact Function.update_self ..

theorem lies_push (grown : LiesAt event machine.memory pointer)
    (top : machine.regs .sp = address - UInt64.ofNat depth)
    (apart : AddressSpace.Apart pointer 56 (address - 96) 96)
    (inside : depth + 16 ≤ 96) (src1 src2 : A64Reg) :
    (execute machine (.stpPre src1 src2 .sp (-16))).regs .sp = address - UInt64.ofNat (depth + 16) ∧
      LiesAt event (execute machine (.stpPre src1 src2 .sp (-16))).memory pointer := by
  have lower : machine.regs .sp + (-16) = address - UInt64.ofNat (depth + 16) := by
    rw [top, UInt64.ofNat_add]
    change address - UInt64.ofNat depth + (-16) = address - (UInt64.ofNat depth + 16)
    grind
  refine ⟨(top_push machine src1 src2).trans lower, ?_⟩
  unfold LiesAt
  change (machine.memory.write (machine.regs .sp + (-16))
    (u64 (read machine src1) ++ u64 (read machine src2))).peek
    pointer 56 = _
  rw [lower, AddressSpace.peek_write_apart]
  · exact grown
  · rw [List.length_append, length_u64, length_u64]
    exact apart_pair apart inside

theorem grown_first (argument : machine.regs .x0 = pointer)
    (lies : LiesAt event machine.memory pointer)
    (apart : AddressSpace.Apart pointer 56 (machine.regs .sp - 96) 96) (src1 src2 : A64Reg) :
    Grown (machine.regs .sp) (u64 (read machine src2)) event pointer 16
      (execute machine (.stpPre src1 src2 .sp (-16))) := by
  obtain ⟨top, still⟩ :=
    @lies_push event (machine.regs .sp) pointer 0 machine lies (UInt64.sub_zero _).symm apart
    (by decide) src1 src2
  refine ⟨top, ?_, argument, still⟩
  have pair := @AddressSpace.peek_write machine.memory (machine.regs .sp + (-16))
    (u64 (read machine src1) ++ u64 (read machine src2))
      (by rw [List.length_append, length_u64, length_u64]; decide)
  rw [List.length_append, length_u64, length_u64] at pair
  have second := congrArg (slice · 8 8) pair
  rw [AddressSpace.slice_peek (by decide)] at second
  have here : machine.regs .sp + (-16) + UInt64.ofNat 8 = machine.regs .sp - 8 := by
    change machine.regs .sp + (-16) + 8 = machine.regs .sp - 8
    grind
  rw [here] at second
  change (machine.memory.write _ _).peek (machine.regs .sp - 8) 8 = _
  rw [second]
  have last := slice_append (u64 (read machine src1)) (u64 (read machine src2)) []
    (length_u64 _).symm (length_u64 _).symm
  rwa [List.append_nil] at last

theorem grown_push (grown : Grown address word event pointer depth machine)
    (apart : AddressSpace.Apart pointer 56 (address - 96) 96) (begun : 16 ≤ depth)
    (inside : depth + 16 ≤ 96)
    (src1 src2 : A64Reg) :
    Grown address word event pointer (depth + 16)
    (execute machine (.stpPre src1 src2 .sp (-16))) := by
  obtain ⟨top, still⟩ := lies_push grown.lies grown.top apart inside src1 src2
  refine ⟨top, ?_, grown.argument, still⟩
  have lower : machine.regs .sp + (-16) = address - UInt64.ofNat (depth + 16) := by
    rw [← top, top_push]
  change (machine.memory.write (machine.regs .sp + (-16))
    (u64 (read machine src1) ++ u64 (read machine src2))).peek
    (address - 8) 8 = word
  rw [lower, AddressSpace.peek_write_apart, grown.saved]
  intro i near
  have distance : address - 8 + UInt64.ofNat i - (address - UInt64.ofNat (depth + 16)) =
      UInt64.ofNat (i + depth + 8) := by
    rw [show depth + 16 = depth + 8 + 8 by rfl, UInt64.ofNat_add _ 8,
      show i + depth + 8 = i + (depth + 8) by omega, UInt64.ofNat_add i]
    change address - 8 + UInt64.ofNat i - (address - (UInt64.ofNat (depth + 8) + 8)) = _
    grind
  rw [distance, UInt64.toNat_ofNat', Nat.mod_eq_of_lt (by omega),
    List.length_append, length_u64, length_u64]
  omega

theorem grown_mov (grown : Grown address word event pointer depth machine)
    {dst : A64Reg} (real : dst ≠ .xzr)
    (notArgument : dst ≠ .x0) (src : A64Reg) :
    Grown address word event pointer depth (execute machine (.data .orr dst .xzr src)) := by
  have writes : Writes dst _ machine (execute machine (.data .orr dst .xzr src)) :=
    writes_write real machine _ machine.flags
  refine ⟨(writes.others .sp real.symm).trans grown.top, ?_,
    (writes.others .x0 notArgument.symm).trans grown.argument, ?_⟩
  · rw [writes.memory, grown.saved]
  · rw [writes.memory]
    exact grown.lies

end Stack

theorem does_stpPre (src1 src2 : A64Reg) (machine : A64State)
    (decoded : decode (stpPre src1 src2 .sp (-16)) = some (.stpPre src1 src2 .sp (-16))) :
    Does [stpPre src1 src2 .sp (-16)] machine (execute machine (.stpPre src1 src2 .sp (-16))) :=
  does_of_decode decoded (by simp) machine

theorem does_move (dst src : A64Reg) (machine : A64State) :
    Does [movX64X64 dst src] machine (execute machine (.data .orr dst .xzr src)) :=
  does_of_decode (decode_movX64X64 dst src) (by simp) machine

theorem does_prologue (machine : A64State) (lies : LiesAt event machine.memory (machine.regs .x0))
    (apart : AddressSpace.Apart (machine.regs .x0) 56 (machine.regs .sp - 96) 96) :
    ∃ after : Running event, Does emitPrologue machine after.1 ∧
      Grown (machine.regs .sp) (u64 (machine.regs .x30)) event (machine.regs .x0) 96 after.1 := by
  have link := grown_mov (grown_first rfl lies apart .x29 .x30)
    (show A64Reg.x29 ≠ .xzr by decide) (by decide) .sp
  have x20 := grown_push link apart (by decide) (by decide) .x19 .x20
  have x22 := grown_push x20 apart (by decide) (by decide) .x21 .x22
  have x24 := grown_push x22 apart (by decide) (by decide) .x23 .x24
  have x26 := grown_push x24 apart (by decide) (by decide) .x25 .x26
  have x28 := grown_push x26 apart (by decide) (by decide) .x27 .x28
  have does := ((((((does_stpPre .x29 .x30 machine (by decide)).trans (does_move .x29 .sp _)).trans
    (does_stpPre .x19 .x20 _ (by decide))).trans (does_stpPre .x21 .x22 _ (by decide))).trans
    (does_stpPre .x23 .x24 _ (by decide))).trans (does_stpPre .x25 .x26 _ (by decide))).trans
    (does_stpPre .x27 .x28 _ (by decide))
  obtain ⟨pushed, saved, grown⟩ : ∃ pushed, Does _ machine pushed ∧
      Grown (machine.regs .sp) (u64 (read machine .x30)) event (machine.regs .x0) 96 pushed :=
        ⟨_, does, x28⟩
  obtain ⟨after, moved, writes⟩ := does_mov (show A64Reg.x19 ≠ .xzr by decide) pushed .x0
  have pointer : after.regs .x19 = machine.regs .x0 := writes.here.trans grown.argument
  have lies : LiesAt event after.memory (after.regs .x19) := by
    rw [pointer, writes.memory]
    exact grown.lies
  refine ⟨⟨after, lies⟩, saved.trans moved, ?_⟩
  refine ⟨(writes.others .sp (by decide)).trans grown.top, ?_,
    (writes.others .x0 (by decide)).trans grown.argument, ?_⟩
  · rw [writes.memory, grown.saved]
    rfl
  · rw [writes.memory]
    exact grown.lies

theorem does_ldpPost (dst1 dst2 : A64Reg) (machine : A64State)
    (decoded : decode (ldpPost dst1 dst2 .sp 16) = some (.ldpPost dst1 dst2 .sp 16)) :
    Does [ldpPost dst1 dst2 .sp 16] machine (execute machine (.ldpPost dst1 dst2 .sp 16)) :=
  does_of_decode decoded (by simp) machine

/-- The epilogue gives the stack back and returns to where X30 pointed at the
entry; it does not touch X0. -/
theorem run_epilogue {machine : A64State} {address link : UInt64}
    (top : machine.regs .sp = address - 96) (saved : machine.memory.peek (address - 8) 8 = u64 link)
    (rest : List UInt32) :
    ∃ final, run (emitEpilogue ++ rest) machine = some (link, final) ∧
      final.regs .x0 = machine.regs .x0 := by
  have does :=
    (((((does_ldpPost .x27 .x28 machine (by decide)).trans
    (does_ldpPost .x25 .x26 _ (by decide))).trans
    (does_ldpPost .x23 .x24 _ (by decide))).trans (does_ldpPost .x21 .x22 _ (by decide))).trans
    (does_ldpPost .x19 .x20 _ (by decide))).trans (does_ldpPost .x29 .x30 _ (by decide))
  obtain ⟨popped, popped_does, x0, x30⟩ : ∃ popped, Does _ machine popped ∧
      popped.regs .x0 = machine.regs .x0 ∧
      popped.regs .x30 =
        u64Of (machine.memory.peek (machine.regs .sp + 16 + 16 + 16 + 16 + 16 + 8) 8) :=
    ⟨_, does, rfl, rfl⟩
  have here : machine.regs .sp + 16 + 16 + 16 + 16 + 16 + 8 = address - 8 := by
    rw [top]
    grind
  rw [here, saved, u64Of_u64] at x30
  refine ⟨popped, ?_, x0⟩
  unfold emitEpilogue
  have returns := popped_does ([ret .x30] ++ rest)
  rw [run_ret, read_real (by decide), x30] at returns
  exact returns

theorem words_of_bytes (words : List UInt32) :
    Element.word32.getMany ((Element.word32.putMany words).length / 4)
    (Element.word32.putMany words) = words := by
  have count : (Element.word32.putMany words).length / 4 = words.length := by
    rw [Element.length_putMany]
    exact Nat.mul_div_cancel _ (by decide)
  have read := Element.word32.getMany_putMany words []
  rwa [List.append_nil, ← count] at read

/-- The emitted code of a function that reads everything in its place returns what the
interpreter returns, and returns to its caller, if X0 points to the event and the event is not in
the stack frame of the code. -/
theorem a64_code_returns {function : Function} {block : BasicBlock}
    (single : function.blocks = [block])
    (ssa : Ssa function.parameters block.instructions) {code : Bytes}
    (accepted : generate function = .ok code)
    {event : CanonicalEvent} {fuel : Nat} {value : UInt64}
    (interpreted : ReferenceInterpreter.execute function fuel event = .ok value)
    (sound : (target event).Sound function.parameters event block.instructions Placement.empty
      (initialValues function))
    (machine : A64State) (lies : LiesAt event machine.memory (machine.regs .x0))
    (apart : AddressSpace.Apart (machine.regs .x0) 56 (machine.regs .sp - 96) 96) :
    ∃ final, run (Element.word32.getMany (code.length / 4) code) machine =
      some (machine.regs .x30, final) ∧
      final.regs .x0 = value := by
  unfold generate generateWords at accepted
  have instructions : function.blocks.flatMap (·.instructions) =
      block.instructions := by simp [single]
  rw [instructions] at accepted
  cases emitted : emitInstructions emitInstruction initial block.instructions with
  | error stop =>
    rw [emitted] at accepted
    cases accepted
  | ok made =>
    obtain ⟨body, next⟩ := made
    rw [emitted] at accepted
    cases accepted
    have straight : ∀ instr ∈ block.instructions, instr.opcode ≠ .jump ∧
        instr.opcode ≠ .branch := by
      intro instr listed
      obtain ⟨g, made, one⟩ := Target.emitted_all emitted instr listed
      exact straight_of_emit one
    obtain ⟨after, executed⟩ := Target.execute_single single straight interpreted
    obtain ⟨entered, prologue, grown⟩ := does_prologue machine lies apart
    have ready : Target.Ready (target event) function.parameters Placement.empty initial
        (initialValues function)
        (demanded block.instructions) entered :=
      @Target.ready_initial _ _ _ (target event) entered function initial [] _ rfl
        (fun _ listed => absurd listed List.not_mem_nil) rfl
    obtain ⟨returned, kept, right, runs⟩ :=
      Target.emitInstructions_correct runOn Keeps Keeps.trans step_correct
      return_correct straight_of_emit emitted ready ssa
        (fun id _ => ⟨List.not_mem_nil, by simp [Placement.empty]⟩) sound executed
    obtain ⟨more, body⟩ := runs emitEpilogue
    obtain ⟨final, finished, same⟩ :=
      @run_epilogue returned.1 (machine.regs .sp) (machine.regs .x30)
      (kept.2.trans grown.top) (by rw [kept.1, grown.saved]) more
    refine ⟨final, ?_, same.trans right⟩
    rw [words_of_bytes, List.append_assoc, prologue]
    exact body.trans finished

/-- `price > 50`. -/
def priceBlock : BasicBlock :=
  ⟨[.loadColumnOp 7 0 1 .i64, .constOp (.i64 50) 2, .compareOp .gtI64 1 2 3, .returnOp 3]⟩

/-- The numbers from 1 to 17 have names; the last two are added. -/
def crowdedBlock : BasicBlock :=
  ⟨((List.range 17).map fun i => .constOp (.u64 (UInt64.ofNat (i + 1))) (i + 1)) ++
    [.binaryOp .addU64 16 17 18 .u64, .returnOp 18]⟩

theorem ssa_priceBlock : Ssa [] priceBlock.instructions := by
  refine ⟨by decide, by decide, ?_⟩
  intro instr listed constant payload
  simp only [priceBlock, List.mem_cons, List.not_mem_nil, or_false] at listed
  rcases listed with rfl | rfl | rfl | rfl <;> cases payload
  rfl

theorem ssa_crowdedBlock : Ssa [] crowdedBlock.instructions := by
  refine ⟨by decide, by decide, ?_⟩
  intro instr listed constant payload
  rcases List.mem_append.mp listed with loaded | last
  · obtain ⟨i, -, rfl⟩ := List.mem_map.mp loaded
    cases payload
    rfl
  · simp only [List.mem_cons, List.not_mem_nil, or_false] at last
    rcases last with rfl | rfl
    · cases payload
    · cases payload

/-- A machine with an event at address 0, the stack at 4096 and its caller at 64. -/
def entryWith (event : CanonicalEvent) : A64State :=
  ⟨fun reg => if reg = .sp then 4096 else if reg = .x30 then
    64 else 0, ⟨false, false, false, false⟩,
    fun address => (eventLayout event).bytes.getD address.toNat 0⟩

theorem lies_entryWith (event : CanonicalEvent) : LiesAt event (entryWith event).memory 0 := by
  unfold LiesAt
  have whole : (eventLayout event).bytes.length = 56 := by simp [eventLayout, Layout.bytes]
  apply List.ext_getElem
  · rw [AddressSpace.length_peek, whole]
  · intro i low high
    simp only [AddressSpace.peek, List.getElem_map, List.getElem_range, entryWith]
    rw [UInt64.zero_add, UInt64.toNat_ofNat', Nat.mod_eq_of_lt (by omega),
      List.getD_eq_getElem?_getD, List.getElem?_eq_getElem high, Option.getD_some]

theorem apart_entryWith (event : CanonicalEvent) :
    AddressSpace.Apart ((entryWith event).regs .x0) 56 ((entryWith event).regs .sp - 96) 96 := by
  change ∀ i < 56, 96 ≤ ((0 : UInt64) + UInt64.ofNat i - (4096 - 96)).toNat
  decide

theorem a64_code_returns_price :
    ∃ code, generate ⟨[priceBlock], [], 4⟩ = .ok code ∧
      ReferenceInterpreter.execute ⟨[priceBlock], [], 4⟩ 1 VectorExecutor.sampleQuote = .ok 1 ∧
      ∃ final, run (Element.word32.getMany (code.length / 4) code)
      (entryWith VectorExecutor.sampleQuote) =
        some (64, final) ∧ final.regs .x0 = 1 := by
  refine ⟨_, rfl, by decide, ?_⟩
  exact @a64_code_returns ⟨[priceBlock], [], 4⟩ priceBlock rfl ssa_priceBlock _ rfl
    VectorExecutor.sampleQuote 1 1
    (by decide) (by decide) (entryWith VectorExecutor.sampleQuote)
      (lies_entryWith _) (apart_entryWith _)

/-- Two results in one register: the first of them is overwritten before it is read. -/
theorem a64_code_differs :
    ¬ ∀ (function : Function) (block : BasicBlock) (body : List Instruction)
    (id : ValueId) (code : Bytes)
      (event : CanonicalEvent) (value : UInt64) (machine : A64State), function.blocks = [block] →
      block.instructions = body ++ [.returnOp id] → Ssa function.parameters block.instructions →
      generate function = .ok code → ReferenceInterpreter.execute function 1 event = .ok value →
      LiesAt event machine.memory (machine.regs .x0) →
      AddressSpace.Apart (machine.regs .x0) 56 (machine.regs .sp - 96) 96 →
      ∃ address final, run (Element.word32.getMany (code.length / 4) code) machine =
        some (address, final) ∧
        final.regs .x0 = value := by
  intro claim
  -- The code adds 17 to itself.
  have wrong : (match generate ⟨[crowdedBlock], [], 19⟩ with
      | .ok code =>
        (run (Element.word32.getMany (code.length / 4) code)
        (entryWith VectorExecutor.sampleQuote)).map
        fun result => result.2.regs A64Reg.x0
      | .error _ => none) = some 34 := by decide +kernel
  cases accepted : generate ⟨[crowdedBlock], [], 19⟩ with
  | error stop =>
    rw [accepted] at wrong
    cases wrong
  | ok code =>
    rw [accepted] at wrong
    obtain ⟨address, final, ran, right⟩ := claim ⟨[crowdedBlock], [], 19⟩ crowdedBlock
      (((List.range 17).map fun i => .constOp (.u64 (UInt64.ofNat (i + 1))) (i + 1)) ++
        [.binaryOp .addU64 16 17 18 .u64])
      18 code VectorExecutor.sampleQuote 33 (entryWith VectorExecutor.sampleQuote) rfl (by decide)
      ssa_crowdedBlock accepted (by decide) (lies_entryWith _) (apart_entryWith _)
    simp only [ran, Option.map_some, right] at wrong
    exact absurd wrong (by decide)

end VectorTick.Jit.A64CodeGenerator
