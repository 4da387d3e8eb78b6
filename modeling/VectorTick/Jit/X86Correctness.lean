import Mathlib.Tactic
import VectorTick.Jit.Operations
import VectorTick.Jit.X86Codegen

/-! When the code of the x86-64 generator does what the interpreter does.

Eight registers are given to one result each. All other results, and those of all comparisons, are
in RAX, one after the other. A comparison clears RAX before it reads its operands, and a result
that goes to RAX overwrites it before the right operand is read. -/

set_option autoImplicit false

namespace VectorTick.Jit.X86CodeGenerator

open Foundation Ir X86 X86Assembler ReferenceInterpreter

def isComparison : Opcode → Bool
  | .eqU64 | .neU64 | .ltU64 | .leU64 | .gtU64 | .geU64 => true
  | _ => false

/-- A comparison reads values with registers of their own, or parameters: these are taken to be in
RAX, which is zero by then. Every other instruction reads values that are in their place, and if
its result goes to RAX, the right operand is not there, except where it is the left one too. -/
def inPlace (parameters : List ValueId) (p : Placement) (instr : Instruction) : Prop :=
  if isComparison instr.opcode then ∀ id ∈ reads instr, id ∈ p.kept ∨ id ∈ parameters
  else (∀ id ∈ reads instr, p.Readable id) ∧
    (p.kept.length < 8 ∨ ∀ id ∈ (reads instr).tail, id ∈ p.kept ∨ id = operand instr 0)

instance (parameters : List ValueId) (p : Placement) (instr : Instruction) :
    Decidable (inPlace parameters p instr) :=
  inferInstanceAs
    (Decidable (if isComparison instr.opcode then ∀ id ∈ reads instr, id ∈ p.kept ∨ id ∈ parameters
    else (∀ id ∈ reads instr, p.Readable id) ∧
      (p.kept.length < 8 ∨ ∀ id ∈ (reads instr).tail, id ∈ p.kept ∨ id = operand instr 0)))

def target : Target X86Reg UInt8 X86State where
  own := [.r11, .r10, .r9, .r8, .rdi, .rsi, .rdx, .rcx]
  fallback := .rax
  shares := isComparison
  inPlace := inPlace
  emitInstruction := emitInstruction
  epilogue := emitEpilogue
  regs := X86State.regs

instance (parameters : List ValueId) (p : Placement) (instr : Instruction) :
    Decidable (target.inPlace parameters p instr) :=
  inferInstanceAs (Decidable (inPlace parameters p instr))

theorem own_distinct : target.own.Nodup := by decide

theorem rax_outside : target.fallback ∉ target.own := by decide

theorem rsp_outside : X86Reg.rsp ∉ target.own := by decide

/-- One register is written. -/
structure Writes (dst : X86Reg) (value : UInt64) (state after : X86State) : Prop where
  memory : after.memory = state.memory
  here : after.regs dst = value
  others : ∀ reg, reg ≠ dst → after.regs reg = state.regs reg

/-- The memory and the stack pointer stay. -/
def Keeps (state after : X86State) : Prop :=
  after.memory = state.memory ∧ after.regs .rsp = state.regs .rsp

theorem Keeps.trans {first second third : X86State} (one : Keeps first second)
    (two : Keeps second third) :
    Keeps first third :=
  ⟨two.1.trans one.1, two.2.trans one.2⟩

theorem Writes.keeps {dst : X86Reg} {value : UInt64} {state after : X86State}
    (writes : Writes dst value state after)
    (ne : dst ≠ .rsp) : Keeps state after :=
  ⟨writes.memory, writes.others .rsp ne.symm⟩

theorem writes_setReg (dst : X86Reg) (value : UInt64) (state : X86State) (flags : X86Flags) :
    Writes dst value state { setReg state dst value with flags := flags } :=
  ⟨rfl, Function.update_self .., fun _ ne => Function.update_of_ne ne ..⟩

theorem Writes.trans {dst : X86Reg} {first second : UInt64} {state middle after : X86State}
    (one : Writes dst first state middle) (two : Writes dst second middle after) :
    Writes dst second state after :=
  ⟨two.memory.trans one.memory, two.here,
    fun reg ne => (two.others reg ne).trans (one.others reg ne)⟩

/-- The piece does an operation on two registers and leaves the result in the first. -/
def Operates (piece : X86Reg → X86Reg → Bytes) (op : Opcode) : Prop :=
  ∀ dst src state, ∃ after, Does (piece dst src) state after ∧
    Writes dst (wordOperation op (state.regs dst) (state.regs src)) state after

theorem operates_alu {piece : X86Reg → X86Reg → Bytes} {op : Opcode} (alu : AluOp)
    (decoded : ∀ rest src dst, decode (piece dst src ++ rest) = some (.alu alu dst src, rest))
    (same : ∀ a b, compute alu a b = wordOperation op a b) : Operates piece op := by
  intro dst src state
  refine ⟨_, does_of_decode (fun rest => decoded rest src dst) (by simp) state, ?_⟩
  rw [← same]
  exact writes_setReg dst _ state _

theorem operates_imul {op : Opcode} (same : ∀ a b : UInt64, a * b = wordOperation op a b) :
    Operates imulR64R64 op := by
  intro dst src state
  refine ⟨_, does_of_decode (fun rest => decode_imulR64R64 rest dst src) (by simp) state, ?_⟩
  rw [← same]
  exact writes_setReg dst _ state _

theorem does_mov (dst src : X86Reg) (state : X86State) :
    ∃ after, Does (movR64R64 dst src) state after ∧ Writes dst (state.regs src) state after :=
  ⟨_, does_of_decode (fun rest => decode_movR64R64 rest src dst) (by simp) state,
    writes_setReg dst _ state _⟩

theorem does_clear (state : X86State) :
    ∃ after, Does (xorR64R64 .rax .rax) state after ∧ Writes .rax 0 state after := by
  refine ⟨_, does_of_decode (fun rest => decode_xorR64R64 rest .rax .rax) (by simp) state, ?_⟩
  have zero : compute .xor (state.regs .rax) (state.regs .rax) = 0 := UInt64.xor_self
  rw [← zero]
  exact writes_setReg .rax _ state _

/-- The condition that a comparison is tested for. -/
def conditionOf : Opcode → Condition
  | .eqU64 => .e
  | .neU64 => .ne
  | .ltU64 => .b
  | .leU64 => .be
  | .gtU64 => .a
  | _ => .ae

theorem holds_sub {op : Opcode} (known : isComparison op = true) (a b : UInt64) :
    (if Condition.holds (aluFlags .sub a b) (conditionOf op) then 1 else 0) =
      wordOperation op a b := by
  have equal : compute .sub a b = 0 ↔ a = b := sub_eq_zero_iff
  have word : ∀ {answer : Bool} {claim : Prop} [Decidable claim], (answer = true ↔ claim) →
      (if answer = true then (1 : UInt64) else 0) = truthWord (decide claim) := by
    intro answer claim _ same
    unfold truthWord
    rw [Bool.eq_iff_iff.mpr (same.trans decide_eq_true_iff.symm)]
  cases op <;> first | exact absurd known (by decide) | skip
  case eqU64 => exact word (by simp [Condition.holds, conditionOf, aluFlags, equal])
  case neU64 => exact word (by simp [Condition.holds, conditionOf, aluFlags, equal])
  case ltU64 => exact word (by simp [Condition.holds, conditionOf, aluFlags])
  case leU64 =>
    exact word (by simp [Condition.holds, conditionOf, aluFlags, equal, UInt64.le_iff_lt_or_eq])
  case gtU64 =>
    have above : a > b ↔ ¬ (a < b ∨ a = b) := by rw [← UInt64.le_iff_lt_or_eq, UInt64.not_le]
    exact word (by simp [Condition.holds, conditionOf, aluFlags, equal, above])
  case geU64 => exact word (by simp [Condition.holds, conditionOf, aluFlags])

theorem does_compare {op : Opcode} (known : isComparison op = true)
    (lhs rhs : X86Reg) (state : X86State) :
    ∃ cleared after,
      Does (xorR64R64 .rax .rax ++ cmpR64R64 lhs rhs ++ setcc (conditionOf op) .rax) state after ∧
      Writes .rax 0 state cleared ∧
      Writes .rax (wordOperation op (cleared.regs lhs) (cleared.regs rhs)) state after := by
  obtain ⟨cleared, does, writes⟩ := does_clear state
  have compares := does_of_decode (fun rest => decode_cmpR64R64 rest rhs lhs) (by simp) cleared
  have sets := does_of_decode (fun rest => decode_setcc rest .rax (conditionOf op)) (by simp)
    (execute cleared (.cmp lhs rhs))
  refine ⟨cleared, _, (does.trans compares).trans sets, writes, ?_⟩
  have set := writes_setReg .rax (wordOperation op (cleared.regs lhs) (cleared.regs rhs)) cleared
    (aluFlags .sub (cleared.regs lhs) (cleared.regs rhs))
  have same : execute (execute cleared (.cmp lhs rhs)) (.setcc (conditionOf op) .rax) =
      { setReg cleared .rax (wordOperation op (cleared.regs lhs) (cleared.regs rhs)) with
        flags := aluFlags .sub (cleared.regs lhs) (cleared.regs rhs) } := by
    rw [← holds_sub known]
    change setReg _ .rax ((cleared.regs .rax &&& 0xFFFFFFFFFFFFFF00) ||| _) = _
    rw [writes.here]
    simp only [UInt64.zero_and, UInt64.zero_or]
    rfl
  rw [same]
  exact writes.trans set

variable {parameters : List ValueId} {event : CanonicalEvent} {p : Placement}
  {g next : Allocation X86Reg}
  {values after : Values} {instr : Instruction} {code : Bytes}
  {before demand : List ValueId} {state : X86State}

/-- What `StepCorrect` promises. -/
def StepDone (parameters : List ValueId) (code : Bytes) (p : Placement)
    (next : Allocation X86Reg) (after : Values)
    (demand : List ValueId) (state : X86State) : Prop :=
  ∃ state', Does code state state' ∧ Keeps state state' ∧
    Target.Ready target parameters p next after demand state'

theorem allocated_ne_rsp (ready : Target.Ready target parameters p g values before state) :
    (allocateReg g).1 ≠ .rsp := by
  intro same
  rcases allocateReg_mem ready.follows with rax | own
  · exact absurd (rax.symm.trans same) (by decide)
  · exact rsp_outside (same ▸ own)

theorem stepDone_put {value : UInt64} {state' : X86State}
    (ready : Target.Ready target parameters p g values before state)
    (weaker : ∀ id ∈ demand, id ∈ before) (fresh : p.Fresh instr.result)
    (apart : instr.result ∉ parameters)
    {written : UInt64} (does : Does code state state')
    (writes : Writes (allocateReg g).1 written state state')
    (right : instr.result ∈ demand → written = value) :
    StepDone parameters code (p.put 8 instr.result)
    ((allocateReg g).2.setReg instr.result (allocateReg g).1)
      (setValue values instr.result value) demand state := by
  refine ⟨state', does, writes.keeps (allocated_ne_rsp ready), ?_⟩
  exact ready.put own_distinct rax_outside weaker fresh apart (fun reg ne _ => writes.others reg ne)
    fun wanted => writes.here.trans (right wanted)

/-- The right operand is read after the left one has been moved to the register of the result. -/
theorem step_binary {piece : X86Reg → X86Reg → Bytes} (known : hasWordOperation instr.opcode = true)
    (notComparison : isComparison instr.opcode = false) (operates : Operates piece instr.opcode)
    (emitted : emitBinary g instr piece = .ok (code, next))
    (ready : Target.Ready target parameters p g values before state)
    (weaker : ∀ id ∈ demand, id ∈ before)
    (found : instr.result ∈ demand → inPlace parameters p instr ∧
      Target.LogicalIsBitwise values instr ∧
      ∀ id ∈ reads instr, id ∈ before)
    (fresh : p.Fresh instr.result) (apart : instr.result ∉ parameters)
    (executed : executeInstruction values instr event = .ok after) :
    StepDone parameters code (p.put 8 instr.result) next after demand state := by
  cases emitted
  obtain ⟨a, b, value, first, second, rfl, agrees⟩ := execute_operation known executed
  obtain ⟨moved, moves, wrote⟩ := does_mov (allocateReg g).1 (getReg g (operand instr 0)) state
  obtain ⟨state', operated, result⟩ := operates (allocateReg g).1 (getReg g (operand instr 1)) moved
  refine stepDone_put ready weaker fresh apart (moves.trans operated)
    (wrote.trans result) fun wanted => ?_
  obtain ⟨place, logical, asked⟩ := found wanted
  rw [agrees logical]
  unfold inPlace at place
  rw [if_neg (by rw [notComparison]; decide), reads_binary known] at place
  rw [reads_binary known] at asked
  obtain ⟨readable, right⟩ := place
  have left : state.regs (getReg g (operand instr 0)) = a :=
    ready.holds _ (asked _ (by simp)) (readable _ (by simp)) a first
  have rightValue : state.regs (getReg g (operand instr 1)) = b :=
    ready.holds _ (asked _ (by simp)) (readable _ (by simp)) b second
  -- The right operand is still there, or the same as the left one.
  have still : moved.regs (getReg g (operand instr 1)) = b := by
    by_cases same : getReg g (operand instr 1) = (allocateReg g).1
    · rcases right with room | full
      · exact absurd same
          (getReg_ne_allocated ready.follows own_distinct rax_outside room (readable _ (by simp)))
      · rcases Nat.lt_or_ge p.kept.length target.own.length with room | none
        · exact absurd same
            (getReg_ne_allocated ready.follows own_distinct rax_outside room (readable _ (by simp)))
        · have rax : (allocateReg g).1 = .rax := (allocateReg_shared ready.follows none).1
          rcases full (operand instr 1) (by simp) with kept | equal
          · exact absurd (same.trans rax) (getReg_ne_fallback ready.follows rax_outside kept)
          · rw [same, wrote.here, left]
            rw [equal, first] at second
            exact Option.some.inj second
    · rw [wrote.others _ same, rightValue]
  rw [wrote.here, left, still]

theorem cleared_operand {id : ValueId} {cleared : X86State} {word : UInt64}
    (ready : Target.Ready target parameters p g values before state) (asked : id ∈ before)
    (place : id ∈ p.kept ∨ id ∈ parameters) (clears : Writes .rax 0 state cleared)
    (has : values id = some word) :
    cleared.regs (getReg g id) = word := by
  rcases place with kept | parameter
  · have away : getReg g id ≠ .rax := getReg_ne_fallback ready.follows rax_outside kept
    rw [clears.others _ away]
    exact ready.holds id asked (.inl kept) word has
  · have rax : getReg g id = .rax := getReg_parameter ready.follows parameter
    rw [rax, clears.here]
    rw [ready.parameters id parameter] at has
    exact Option.some.inj has

theorem step_compare (known : isComparison instr.opcode = true)
    (emitted : emitCompare g instr (conditionOf instr.opcode) = .ok (code, next))
    (ready : Target.Ready target parameters p g values before state)
    (weaker : ∀ id ∈ demand, id ∈ before)
    (found : instr.result ∈ demand → inPlace parameters p instr ∧
      Target.LogicalIsBitwise values instr ∧
      ∀ id ∈ reads instr, id ∈ before)
    (fresh : p.Fresh instr.result) (apart : instr.result ∉ parameters)
    (executed : executeInstruction values instr event = .ok after) :
    StepDone parameters code (p.share instr.result) next after demand state := by
  have binary : hasWordOperation instr.opcode = true := by
    cases op : instr.opcode <;> rw [op] at known <;> first | rfl | exact absurd known (by decide)
  cases emitted
  obtain ⟨a, b, value, first, second, rfl, agrees⟩ := execute_operation binary executed
  obtain ⟨cleared, state', does, clears, writes⟩ :=
    does_compare known (getReg g (operand instr 0)) (getReg g (operand instr 1)) state
  refine ⟨state', does, writes.keeps (by decide), ?_⟩
  refine ready.share rax_outside weaker fresh apart writes.others fun wanted => ?_
  obtain ⟨place, logical, asked⟩ := found wanted
  unfold inPlace at place
  rw [if_pos known, reads_binary binary] at place
  rw [reads_binary binary] at asked
  rw [agrees logical, ← cleared_operand ready (asked _ (by simp)) (place _ (by simp)) clears first,
    ← cleared_operand ready (asked _ (by simp)) (place _ (by simp)) clears second]
  exact writes.here

theorem step_constant {move : X86Reg → Constant → Bytes}
    (emitted : emitConstant g instr move = .ok (code, next))
    (moves : ∀ constant, instr.payload = .constant constant →
      ∀ dst state, ∃ state', Does (move dst constant) state state' ∧
      Writes dst constant.getU64 state state')
    (ready : Target.Ready target parameters p g values before state)
    (weaker : ∀ id ∈ demand, id ∈ before)
    (fresh : p.Fresh instr.result) (apart : instr.result ∉ parameters)
    (executed : ∀ constant, instr.payload = .constant constant →
      after = setValue values instr.result constant.getU64) :
    StepDone parameters code (p.put 8 instr.result) next after demand state := by
  unfold emitConstant at emitted
  split at emitted
  case h_1 constant payload =>
    cases emitted
    rw [executed constant payload]
    obtain ⟨state', does, writes⟩ := moves constant payload (allocateReg g).1 state
    exact stepDone_put ready weaker fresh apart does writes fun _ => rfl
  case h_2 => cases emitted

theorem does_movImm64 (dst : X86Reg) (imm : UInt64) (state : X86State) :
    ∃ after, Does (movR64Imm64 dst imm) state after ∧ Writes dst imm state after :=
  ⟨_, does_of_decode (fun rest => decode_movR64Imm64 rest dst imm) (by simp) state,
    writes_setReg dst _ state _⟩

theorem does_movImm32 (dst : X86Reg) (imm : UInt32) (state : X86State) :
    ∃ after, Does (movR32Imm32 dst imm) state after ∧ Writes dst imm.toUInt64 state after :=
  ⟨_, does_of_decode (fun rest => decode_movR32Imm32 rest dst imm) (by simp) state,
    writes_setReg dst _ state _⟩

theorem place_put (isDefinition : defines instr = true)
    (notComparison : isComparison instr.opcode = false) :
    target.place p instr = p.put 8 instr.result := by
  unfold Target.place
  rw [if_pos isDefinition,
    if_neg (by change ¬ isComparison instr.opcode = true; rw [notComparison]; decide)]
  rfl

theorem place_share (isDefinition : defines instr = true) (known : isComparison instr.opcode = true) :
    target.place p instr = p.share instr.result := by
  unfold Target.place
  rw [if_pos isDefinition, if_pos (show target.shares instr.opcode = true from known)]

theorem step_correct : Target.StepCorrect target run Keeps parameters event := by
  intro p g next values after instr code before demand state notReturn emitted ready weaker
    found new constants executed
  have emitted : emitInstruction g instr = .ok (code, next) := emitted
  change StepDone parameters code (target.place p instr) next after demand state
  have arithmetic : ∀ {piece op}, instr.opcode = op → hasWordOperation op = true →
      isComparison op = false →
      Operates piece op → emitBinary g instr piece = .ok (code, next) →
      StepDone parameters code (target.place p instr) next after demand state := by
    rintro piece op rfl known notComparison operates made
    obtain ⟨fresh, apart⟩ := new (defines_of_hasWordOperation known)
    rw [place_put (defines_of_hasWordOperation known) notComparison]
    exact step_binary known notComparison operates made ready weaker found fresh apart executed
  have comparison : ∀ {op}, instr.opcode = op → hasWordOperation op = true →
      isComparison op = true →
      emitCompare g instr (conditionOf op) = .ok (code, next) →
      StepDone parameters code (target.place p instr) next after demand state := by
    rintro op rfl known isOne made
    obtain ⟨fresh, apart⟩ := new (defines_of_hasWordOperation known)
    rw [place_share (defines_of_hasWordOperation known) isOne]
    exact step_compare isOne made ready weaker found fresh apart executed
  have constant : ∀ {move op}, instr.opcode = op → op = .constU64 ∨
      op = .constI64 ∨ op = .constU32 →
      emitConstant g instr move = .ok (code, next) →
      (∀ constant, instr.payload = .constant constant →
        ∀ dst state, ∃ state', Does (move dst constant) state state' ∧
        Writes dst constant.getU64 state state') →
      StepDone parameters code (target.place p instr) next after demand state := by
    rintro move op isOp known made moves
    have isDefinition : defines instr = true := by
      unfold defines
      rw [isOp]
      rcases known with rfl | rfl | rfl <;> rfl
    have notComparison : isComparison instr.opcode = false := by
      rw [isOp]
      rcases known with rfl | rfl | rfl <;> rfl
    obtain ⟨fresh, apart⟩ := new isDefinition
    rw [place_put isDefinition notComparison]
    refine step_constant made moves ready weaker fresh apart fun value payload => ?_
    exact execute_constant (isOp ▸ known) executed payload
  unfold emitInstruction at emitted
  cases op : instr.opcode <;> simp only [op] at emitted <;> first | cases emitted; done | skip
  case nop =>
    cases emitted
    unfold executeInstruction at executed
    simp only [op] at executed
    cases executed
    have stays : target.place p instr = p := if_neg (by unfold defines; rw [op]; decide)
    rw [stays]
    refine ⟨state, does_of_decode decode_nop (by simp) state, ⟨rfl, rfl⟩,
      ready.follows, ?_, ready.parameters⟩
    exact fun id wanted => ready.holds id (weaker id wanted)
  case return_ => exact absurd op notReturn
  case constU64 => exact constant op (.inl rfl) emitted fun value _ dst state => does_movImm64 dst value.getU64 state
  case constI64 =>
    exact constant op (.inr (.inl rfl)) emitted fun value _ dst state =>
      does_movImm64 dst value.getU64 state
  case constU32 =>
    refine constant op (.inr (.inr rfl)) emitted fun value payload dst state => ?_
    rw [← getU32_toUInt64 ((constants value payload).symm.trans op)]
    exact does_movImm32 dst value.getU32 state
  case addU64 =>
    exact arithmetic op rfl rfl (operates_alu .add decode_addR64R64 fun _ _ => rfl) emitted
  case addI64 =>
    exact arithmetic op rfl rfl (operates_alu .add decode_addR64R64 fun _ _ => rfl) emitted
  case subU64 =>
    exact arithmetic op rfl rfl (operates_alu .sub decode_subR64R64 fun _ _ => rfl) emitted
  case subI64 =>
    exact arithmetic op rfl rfl (operates_alu .sub decode_subR64R64 fun _ _ => rfl) emitted
  case mulU64 => exact arithmetic op rfl rfl (operates_imul fun _ _ => rfl) emitted
  case mulI64 => exact arithmetic op rfl rfl (operates_imul fun _ _ => rfl) emitted
  case and =>
    exact arithmetic op rfl rfl (operates_alu .and decode_andR64R64 fun _ _ => rfl) emitted
  case or => exact arithmetic op rfl rfl (operates_alu .or decode_orR64R64 fun _ _ => rfl) emitted
  case bitXor =>
    exact arithmetic op rfl rfl (operates_alu .xor decode_xorR64R64 fun _ _ => rfl) emitted
  all_goals exact comparison op rfl rfl emitted

theorem return_correct : Target.ReturnCorrect target run Keeps parameters := by
  intro p g next values instr code state value isReturn emitted ready readable returns
  have emitted : emitInstruction g instr = .ok (code, next) := emitted
  unfold emitInstruction at emitted
  simp only [isReturn] at emitted
  cases emitted
  unfold Target.Returns at returns
  unfold emitReturn
  cases operands : instr.operands with
  | nil =>
    rw [operands] at returns
    obtain ⟨cleared, does, writes⟩ := does_clear state
    refine ⟨cleared, writes.keeps (by decide), ?_, fun rest => ⟨rest, ?_⟩⟩
    · rw [returns]
      exact writes.here
    · rw [List.append_assoc, does]
      rfl
  | cons id others =>
    rw [operands] at returns ready readable
    have right : state.regs (getReg g id) = value :=
      ready.holds id (by simp) (readable id (by simp)) value returns
    by_cases rax : getReg g id = .rax
    · refine ⟨state, ⟨rfl, rfl⟩, ?_, fun rest => ⟨rest, ?_⟩⟩
      · rw [← right, rax]
        rfl
      · simp only [rax, ne_eq, not_true_eq_false, if_false, List.nil_append]
        rfl
    · obtain ⟨moved, does, writes⟩ := does_mov .rax (getReg g id) state
      refine ⟨moved, writes.keeps (by decide), ?_, fun rest => ⟨rest, ?_⟩⟩
      · rw [← right]
        exact writes.here
      · simp only [ne_eq, rax, not_false_eq_true, if_true]
        rw [List.append_assoc, does]
        rfl

theorem straight_of_emit {made : Bytes × Allocation X86Reg}
    (emitted : emitInstruction g instr = .ok made) :
    instr.opcode ≠ .jump ∧ instr.opcode ≠ .branch := by
  constructor <;> intro op <;> unfold emitInstruction at emitted <;>
    simp only [op] at emitted <;> cases emitted

theorem does_push (reg : X86Reg) (state : X86State) :
    Does (pushR64 reg) state (execute state (.push reg)) :=
  does_of_decode (fun rest => decode_pushR64 rest reg) (by simp) state

theorem does_pop (reg : X86Reg) (state : X86State) :
    Does (popR64 reg) state (execute state (.pop reg)) :=
  does_of_decode (fun rest => decode_popR64 rest reg) (by simp) state

theorem does_addImm32 (reg : X86Reg) (imm : UInt32) (state : X86State) :
    Does (addR64Imm32 reg imm) state (execute state (.addImm32 reg imm)) :=
  does_of_decode (fun rest => decode_addR64Imm32 rest reg imm) (by simp) state

theorem does_movReg (dst src : X86Reg) (state : X86State) :
    Does (movR64R64 dst src) state (execute state (.mov dst src)) :=
  does_of_decode (fun rest => decode_movR64R64 rest src dst) (by simp) state

/-- The stack has grown by `depth` bytes from an address, and `word` is still there. -/
structure Grown (address : UInt64) (word : Bytes) (depth : Nat) (state : X86State) : Prop where
  pointer : state.regs .rsp = address - UInt64.ofNat depth
  caller : state.memory.peek address 8 = word

section Stack

variable {address : UInt64} {word : Bytes} {depth : Nat}

theorem grown_push (grown : Grown address word depth state)
    (small : depth < 2 ^ 32) (reg : X86Reg) :
    Grown address word (depth + 8) (execute state (.push reg)) := by
  have lower : state.regs .rsp - 8 = address - UInt64.ofNat (depth + 8) := by
    rw [grown.pointer, UInt64.ofNat_add]
    change address - UInt64.ofNat depth - UInt64.ofNat 8 = _
    grind
  refine ⟨lower, ?_⟩
  change (state.memory.write (state.regs .rsp - 8) (u64 (state.regs reg))).peek address 8 = word
  rw [lower, AddressSpace.peek_write_apart, grown.caller]
  intro i near
  have distance : address + UInt64.ofNat i - (address - UInt64.ofNat (depth + 8)) =
      UInt64.ofNat (i + (depth + 8)) := by
    rw [UInt64.ofNat_add i]
    grind
  rw [distance, UInt64.toNat_ofNat', Nat.mod_eq_of_lt (by omega), length_u64]
  omega

theorem grown_mov (grown : Grown address word depth state) {dst : X86Reg}
    (ne : dst ≠ .rsp) (src : X86Reg) :
    Grown address word depth (execute state (.mov dst src)) :=
  ⟨(Function.update_of_ne ne.symm ..).trans grown.pointer, grown.caller⟩

theorem grown_frame (grown : Grown address word depth state) :
    Grown address word (depth + 64) (execute state (.addImm32 .rsp (-64))) := by
  refine ⟨?_, grown.caller⟩
  change state.regs .rsp + signExtend (-64) = _
  have frame : signExtend (-64) = 0 - UInt64.ofNat 64 := by decide
  rw [grown.pointer, frame, UInt64.ofNat_add]
  grind

end Stack

theorem does_prologue (state : X86State) :
    ∃ after, Does emitPrologue state after ∧
      Grown (state.regs .rsp) (state.memory.peek (state.regs .rsp) 8) 112 after := by
  refine ⟨_,
    (((((((does_push .rbp _).trans (does_movReg .rbp .rsp _)).trans (does_push .rbx _)).trans
    (does_push .r12 _)).trans (does_push .r13 _)).trans (does_push .r14 _)).trans
      (does_push .r15 _)).trans
    (does_addImm32 .rsp (-64) _), ?_⟩
  have start : Grown (state.regs .rsp) (state.memory.peek (state.regs .rsp) 8) 0 state :=
    ⟨(UInt64.sub_zero _).symm, rfl⟩
  have rbp := grown_mov (grown_push start (by decide) .rbp) (show X86Reg.rbp ≠ .rsp by decide) .rsp
  have rbx := grown_push rbp (by decide) .rbx
  have r12 := grown_push rbx (by decide) .r12
  have r13 := grown_push r12 (by decide) .r13
  have r14 := grown_push r13 (by decide) .r14
  exact grown_frame (grown_push r14 (by decide) .r15)

/-- The epilogue gives the stack back and returns; it does not touch RAX. -/
theorem run_epilogue {state : X86State} {address : UInt64} {word : Bytes}
    (grown : Grown address word 112 state)
    (rest : Bytes) :
    ∃ final, run (emitEpilogue ++ rest) state = some (u64Of word, final) ∧
      final.regs .rax = state.regs .rax := by
  have pops :=
    ((((((does_addImm32 .rsp 64 state).trans (does_pop .r15 _)).trans (does_pop .r14 _)).trans
    (does_pop .r13 _)).trans (does_pop .r12 _)).trans (does_pop .rbx _)).trans (does_pop .rbp _)
  obtain ⟨popped, does, pointer, memory, rax⟩ : ∃ popped, Does _ state popped ∧
      popped.regs .rsp = state.regs .rsp + signExtend 64 + 8 + 8 + 8 + 8 + 8 + 8 ∧
        popped.memory = state.memory ∧
      popped.regs .rax = state.regs .rax := ⟨_, pops, rfl, rfl, rfl⟩
  have back : popped.regs .rsp = address := by
    have frame : signExtend 64 = 64 := by decide
    rw [pointer, grown.pointer, frame]
    change address - 112 + 64 + 8 + 8 + 8 + 8 + 8 + 8 = address
    grind
  refine ⟨setReg popped .rsp (popped.regs .rsp + 8), ?_, ?_⟩
  · unfold emitEpilogue
    rw [List.append_assoc, does, run_ret, back, memory, grown.caller]
  · exact rax

/-- The emitted code of a function that reads everything in its place returns what the interpreter
returns, and returns to its caller. -/
theorem x86_code_returns {function : Function} {block : BasicBlock}
    (single : function.blocks = [block])
    (ssa : Ssa function.parameters block.instructions) {code : Bytes}
    (accepted : generate function = .ok code)
    {event : CanonicalEvent} {fuel : Nat} {value : UInt64}
    (interpreted : ReferenceInterpreter.execute function fuel event = .ok value)
    (sound : target.Sound function.parameters event block.instructions Placement.empty
      (initialValues function))
    (state : X86State) :
    ∃ final, run code state = some (u64Of (state.memory.peek (state.regs .rsp) 8), final) ∧
      final.regs .rax = value := by
  unfold generate at accepted
  have instructions : function.blocks.flatMap (·.instructions) =
      block.instructions := by simp [single]
  rw [instructions] at accepted
  cases emitted : emitInstructions emitInstruction initial block.instructions with
  | error stop =>
    rw [emitted] at accepted
    cases accepted
  | ok made =>
    obtain ⟨body, next⟩ := made
    rw [emitted] at accepted
    cases accepted
    have straight : ∀ instr ∈ block.instructions, instr.opcode ≠ .jump ∧
        instr.opcode ≠ .branch := by
      intro instr listed
      obtain ⟨g, made, one⟩ := Target.emitted_all emitted instr listed
      exact straight_of_emit one
    obtain ⟨after, executed⟩ := Target.execute_single single straight interpreted
    obtain ⟨entered, prologue, grown⟩ := does_prologue state
    have ready : Target.Ready target function.parameters Placement.empty initial
        (initialValues function)
        (demanded block.instructions) entered :=
      Target.ready_initial function rfl
        (by simp [target] : ∀ reg ∈ [X86Reg.rax], reg = target.fallback) rfl
    obtain ⟨returned, kept, right, runs⟩ :=
      Target.emitInstructions_correct run Keeps Keeps.trans step_correct
      return_correct straight_of_emit emitted ready ssa
        (fun id _ => ⟨List.not_mem_nil, by simp [Placement.empty]⟩) sound executed
    obtain ⟨more, body⟩ := runs emitEpilogue
    have back : Grown (state.regs .rsp) (state.memory.peek (state.regs .rsp) 8) 112 returned :=
      ⟨kept.2.trans grown.pointer, by rw [kept.1, grown.caller]⟩
    obtain ⟨final, finished, same⟩ := run_epilogue back more
    refine ⟨final, ?_, same.trans right⟩
    rw [List.append_assoc, prologue, body]
    exact finished

/-- `5 + 7 > 5`. -/
def sumBlock : BasicBlock :=
  ⟨[.constOp (.u64 5) 1, .constOp (.u64 7) 2, .binaryOp .addU64 1 2 3 .u64,
    .compareOp .gtU64 3 1 4, .returnOp 4]⟩

/-- `(1 < 2) = 1`. -/
def nestedBlock : BasicBlock :=
  ⟨[.constOp (.u64 1) 1, .constOp (.u64 2) 2, .compareOp .ltU64 1 2 3,
    .compareOp .eqU64 3 1 4, .returnOp 4]⟩

theorem ssa_sumBlock : Ssa [] sumBlock.instructions := by
  refine ⟨by decide, by decide, ?_⟩
  intro instr listed constant payload
  simp only [sumBlock, List.mem_cons, List.not_mem_nil, or_false] at listed
  rcases listed with rfl | rfl | rfl | rfl | rfl <;> cases payload <;> rfl

theorem ssa_nestedBlock : Ssa [] nestedBlock.instructions := by
  refine ⟨by decide, by decide, ?_⟩
  intro instr listed constant payload
  simp only [nestedBlock, List.mem_cons, List.not_mem_nil, or_false] at listed
  rcases listed with rfl | rfl | rfl | rfl | rfl <;> cases payload <;> rfl

theorem x86_code_returns_sum :
    ∃ code, generate ⟨[sumBlock], [], 5⟩ = .ok code ∧
      ReferenceInterpreter.execute ⟨[sumBlock], [], 5⟩ 1 VectorExecutor.sampleQuote = .ok 1 ∧
      ∀ state, ∃ final, run code state =
        some (u64Of (state.memory.peek (state.regs .rsp) 8), final) ∧
        final.regs .rax = 1 := by
  refine ⟨_, rfl, rfl, fun state => ?_⟩
  exact @x86_code_returns ⟨[sumBlock], [], 5⟩ sumBlock rfl ssa_sumBlock _ rfl
    VectorExecutor.sampleQuote 1 1 rfl
    (by decide) state

/-- A comparison that reads the result of another one finds zero instead. -/
theorem x86_code_differs :
    ¬ ∀ (function : Function) (block : BasicBlock) (body : List Instruction)
    (id : ValueId) (code : Bytes)
      (event : CanonicalEvent) (value : UInt64) (state : X86State), function.blocks = [block] →
      block.instructions = body ++ [.returnOp id] → Ssa function.parameters block.instructions →
      generate function = .ok code → ReferenceInterpreter.execute function 1 event = .ok value →
      ∃ address final, run code state = some (address, final) ∧ final.regs .rax = value := by
  intro claim
  obtain ⟨address, final, ran, right⟩ :=
    claim ⟨[nestedBlock], [], 5⟩ nestedBlock _ 4 _ VectorExecutor.sampleQuote 1
    ⟨fun _ => 0, ⟨false, false⟩, fun _ => 0⟩ rfl
    (show nestedBlock.instructions =
      [.constOp (.u64 1) 1, .constOp (.u64 2) 2, .compareOp .ltU64 1 2 3,
      .compareOp .eqU64 3 1 4] ++ [.returnOp 4] from rfl) ssa_nestedBlock rfl rfl
  have zero := congrArg (Option.map fun result => result.2.regs X86Reg.rax) ran
  rw [Option.map_some, right] at zero
  exact absurd zero (by decide)

end VectorTick.Jit.X86CodeGenerator
