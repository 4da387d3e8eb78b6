import VectorTick.Foundation.WordStack
import VectorTick.Jit.Bodies
import VectorTick.Jit.X86Codegen

/-! What a caller of the x86-64 generator's code relies on. -/

set_option autoImplicit false

namespace VectorTick.Jit.X86

open Foundation

/-- The addresses of the bytes that an instruction stores. -/
def stored (state : X86State) : X86Instruction → List UInt64
  | .push _ => (List.range 8).map fun i => state.regs .rsp - 8 + UInt64.ofNat i
  | _ => []

def processor : Processor UInt8 X86Instruction X86State where
  next := decode
  shorter := length_decode
  returns := fun instr => instr = .ret
  execute := execute
  stored := stored

theorem run_eq_trace (code : Bytes) (state : X86State) : run code state =
    (processor.trace code state).map fun run =>
      (u64Of (run.2.2.memory.peek (run.2.2.regs .rsp) 8),
        setReg run.2.2 .rsp (run.2.2.regs .rsp + 8)) := by
  unfold run Processor.trace
  generalize code.length = fuel
  induction fuel generalizing code state with
  | zero => rfl
  | succ fuel ih =>
    have next : processor.next code = decode code := rfl
    rw [runFuel, Processor.traceFuel, next]
    cases decode code with
    | none => rfl
    | some step =>
      obtain ⟨instr, rest⟩ := step
      by_cases returns : instr = .ret
      · subst returns
        rfl
      · have goesOn : processor.returns instr = false := decide_eq_false returns
        have later := ih rest (execute state instr)
        dsimp only
        rw [goesOn, if_neg Bool.false_ne_true, Option.map_map]
        refine Eq.trans ?_ later
        cases instr <;> first | rfl | exact absurd rfl returns

theorem performs_of_decode {piece : Bytes} {instr : X86Instruction}
    (decoded : ∀ rest, decode (piece ++ rest) = some (instr, rest))
    (goesOn : instr ≠ .ret) (state : X86State) :
    processor.Performs piece state (stored state instr) (execute state instr) := by
  have next : ∀ rest, processor.next (piece ++ rest) = some (instr, rest) := decoded
  exact .of_next next (decide_eq_false goesOn) state

end VectorTick.Jit.X86

namespace VectorTick.Jit.X86CodeGenerator

open Foundation Ir X86 X86Assembler
open ReferenceInterpreter (operand)

/-- Nothing changes but the flags and the registers that results are given to. -/
def KeepsCaller (state after : X86State) : Prop :=
  after.memory = state.memory ∧ ∀ reg ∉ freeRegs, after.regs reg = state.regs reg

theorem keepsCaller_refl (state : X86State) : KeepsCaller state state := ⟨rfl, fun _ _ => rfl⟩

theorem keepsCaller_trans (first second third : X86State) (one : KeepsCaller first second)
    (two : KeepsCaller second third) :
    KeepsCaller first third :=
  ⟨two.1.trans one.1, fun reg outside => (two.2 reg outside).trans (one.2 reg outside)⟩

/-- The register that an instruction of a body writes, if any. -/
def written : X86Instruction → Option X86Reg
  | .movImm64 dst _ | .movImm32 dst _ | .mov dst _ | .alu _ dst _ | .imul dst _ | .setcc _ dst =>
    some dst
  | _ => none

/-- An instruction of a body: it has nothing to do with the stack. -/
def InBody (instr : X86Instruction) : Prop :=
  match instr with
  | .push _ | .pop _ | .addImm32 _ _ | .ret => False
  | _ => ∀ reg ∈ written instr, reg ∈ freeRegs

theorem writes_listed {dst : X86Reg} (listed : dst ∈ freeRegs) :
    ∀ reg ∈ some dst, reg ∈ freeRegs := by
  rintro _ ⟨⟩
  exact listed

theorem keepsCaller_setReg {dst : X86Reg} (listed : dst ∈ freeRegs) (state : X86State)
    (value : UInt64) (flags : X86Flags) :
    KeepsCaller state { setReg state dst value with flags := flags } :=
  ⟨rfl, fun reg outside =>
    Function.update_of_ne (show reg ≠ dst from fun same => outside (same ▸ listed)) ..⟩

theorem keepsCaller_execute {instr : X86Instruction} (body : InBody instr) (state : X86State) :
    KeepsCaller state (execute state instr) := by
  cases instr with
  | nop => exact keepsCaller_refl state
  | ret => exact body.elim
  | cmp first second => exact ⟨rfl, fun _ _ => rfl⟩
  | addImm32 dst imm => exact body.elim
  | push reg => exact body.elim
  | pop reg => exact body.elim
  | movImm64 dst imm => exact keepsCaller_setReg (body dst rfl) state _ state.flags
  | movImm32 dst imm => exact keepsCaller_setReg (body dst rfl) state _ state.flags
  | mov dst src => exact keepsCaller_setReg (body dst rfl) state _ state.flags
  | alu op dst src => exact keepsCaller_setReg (body dst rfl) state _ _
  | imul dst src => exact keepsCaller_setReg (body dst rfl) state _ _
  | setcc cond dst => exact keepsCaller_setReg (body dst rfl) state _ state.flags

abbrev QuietCode (piece : Bytes) : Prop := processor.Quiet KeepsCaller piece

theorem quiet_of_decode {piece : Bytes} {instr : X86Instruction}
    (decoded : ∀ rest, decode (piece ++ rest) = some (instr, rest))
    (body : InBody instr) : QuietCode piece := by
  refine .of_next decoded ?_ ?_ (keepsCaller_execute body)
  · exact decide_eq_false fun same => by subst same; exact body
  · intro state
    cases instr <;> first | rfl | exact body.elim

theorem QuietCode.append {first second : Bytes} (one : QuietCode first) (two : QuietCode second) :
    QuietCode (first ++ second) := Processor.Quiet.append keepsCaller_trans one two

theorem rax_free : X86Reg.rax ∈ freeRegs := by decide

section Instructions

variable {g next : Allocation X86Reg} {instr : Instruction} {code : Bytes}

theorem quiet_mov {dst : X86Reg} (listed : dst ∈ freeRegs) (src : X86Reg) :
    QuietCode (movR64R64 dst src) :=
  quiet_of_decode (fun rest => decode_movR64R64 rest src dst) (writes_listed listed)

theorem quiet_clear : QuietCode (xorR64R64 .rax .rax) :=
  quiet_of_decode (fun rest => decode_xorR64R64 rest .rax .rax) (writes_listed rax_free)

theorem bodied_constant {move : X86Reg → Constant → Bytes} (pooled : Pooled freeRegs g)
    (quiet : ∀ dst ∈ freeRegs, ∀ constant, QuietCode (move dst constant))
    (emitted : emitConstant g instr move = .ok (code, next)) :
    Bodied processor KeepsCaller emitEpilogue code ∧ Pooled freeRegs next := by
  unfold emitConstant at emitted
  cases payload : instr.payload with
  | constant constant =>
    rw [payload] at emitted
    cases emitted
    obtain ⟨listed, left⟩ := pooled.allocateReg rax_free
    exact ⟨.inl (quiet _ listed constant), left⟩
  | _ =>
    rw [payload] at emitted
    cases emitted

theorem bodied_binary {op : X86Reg → X86Reg → Bytes} (pooled : Pooled freeRegs g)
    (quiet : ∀ dst ∈ freeRegs, ∀ src, QuietCode (op dst src))
    (emitted : emitBinary g instr op = .ok (code, next)) :
    Bodied processor KeepsCaller emitEpilogue code ∧ Pooled freeRegs next := by
  cases emitted
  obtain ⟨listed, left⟩ := pooled.allocateReg rax_free
  exact ⟨.inl ((quiet_mov listed _).append (quiet _ listed _)), left⟩

theorem bodied_compare {cond : Condition} (pooled : Pooled freeRegs g)
    (emitted : emitCompare g instr cond = .ok (code, next)) :
    Bodied processor KeepsCaller emitEpilogue code ∧ Pooled freeRegs next := by
  cases emitted
  have compares (lhs rhs : X86Reg) : QuietCode (cmpR64R64 lhs rhs) :=
    quiet_of_decode (fun rest => decode_cmpR64R64 rest rhs lhs) fun _ none => (nomatch none)
  have sets : QuietCode (setcc cond .rax) :=
    quiet_of_decode (fun rest => decode_setcc rest .rax cond) (writes_listed rax_free)
  exact ⟨.inl ((quiet_clear.append (compares _ _)).append sets), pooled⟩

theorem bodied_return : Bodied processor KeepsCaller emitEpilogue (emitReturn g instr) := by
  unfold emitReturn
  cases instr.operands with
  | nil => exact .inr ⟨_, quiet_clear, rfl⟩
  | cons id others =>
    by_cases rax : getReg g id = .rax
    · exact .inr ⟨[], .nil keepsCaller_refl, by simp only [rax, ne_eq, not_true_eq_false, if_false]⟩
    · exact .inr ⟨_,
        quiet_mov rax_free (getReg g id), by simp only [ne_eq, rax, not_false_eq_true, if_true]⟩

theorem quiet_alu {op : X86Reg → X86Reg → Bytes} {alu : AluOp}
    (decoded : ∀ rest src dst, decode (op dst src ++ rest) = some (.alu alu dst src, rest)) :
    ∀ dst ∈ freeRegs, ∀ src, QuietCode (op dst src) :=
  fun dst listed src => quiet_of_decode (fun rest => decoded rest src dst) (writes_listed listed)

theorem bodied_instruction (pooled : Pooled freeRegs g)
    (emitted : emitInstruction g instr = .ok (code, next)) :
    Bodied processor KeepsCaller emitEpilogue code ∧ Pooled freeRegs next := by
  have wide : ∀ dst ∈ freeRegs, ∀ constant : Constant,
      QuietCode (movR64Imm64 dst constant.getU64) :=
    fun dst listed constant =>
      quiet_of_decode (fun rest => decode_movR64Imm64 rest dst constant.getU64)
      (writes_listed listed)
  have narrow : ∀ dst ∈ freeRegs, ∀ constant : Constant,
      QuietCode (movR32Imm32 dst constant.getU32) :=
    fun dst listed constant =>
      quiet_of_decode (fun rest => decode_movR32Imm32 rest dst constant.getU32)
      (writes_listed listed)
  have multiply : ∀ dst ∈ freeRegs, ∀ src, QuietCode (imulR64R64 dst src) :=
    fun dst listed src => quiet_of_decode (fun rest => decode_imulR64R64 rest dst src)
      (writes_listed listed)
  unfold emitInstruction at emitted
  cases op : instr.opcode <;> simp only [op] at emitted <;> first | cases emitted; done | skip
  case nop =>
    cases emitted
    exact ⟨.inl (quiet_of_decode decode_nop fun _ none => (nomatch none)), pooled⟩
  case return_ =>
    cases emitted
    exact ⟨bodied_return, pooled⟩
  case constU64 => exact bodied_constant pooled wide emitted
  case constI64 => exact bodied_constant pooled wide emitted
  case constU32 => exact bodied_constant pooled narrow emitted
  case addU64 => exact bodied_binary pooled (quiet_alu decode_addR64R64) emitted
  case addI64 => exact bodied_binary pooled (quiet_alu decode_addR64R64) emitted
  case subU64 => exact bodied_binary pooled (quiet_alu decode_subR64R64) emitted
  case subI64 => exact bodied_binary pooled (quiet_alu decode_subR64R64) emitted
  case mulU64 => exact bodied_binary pooled multiply emitted
  case mulI64 => exact bodied_binary pooled multiply emitted
  case and => exact bodied_binary pooled (quiet_alu decode_andR64R64) emitted
  case or => exact bodied_binary pooled (quiet_alu decode_orR64R64) emitted
  case bitXor => exact bodied_binary pooled (quiet_alu decode_xorR64R64) emitted
  all_goals exact bodied_compare pooled emitted

end Instructions

/-- The stack has grown by the words from the address on, and the memory
from there on is as it was. -/
structure Pushed (address : UInt64) (words : List UInt64) (initial : AddressSpace)
    (state : X86State) : Prop where
  pointer : state.regs .rsp = address - UInt64.ofNat (8 * words.length)
  stack : Stacked address words initial state.memory

theorem performs_push {address : UInt64} {words : List UInt64}
    {initial : AddressSpace} {state : X86State}
    (pushed : Pushed address words initial state)
    (small : 8 * (words.length + 1) ≤ 2 ^ 32) (reg : X86Reg) :
    ∃ stores, processor.Performs (pushR64 reg) state stores (execute state (.push reg)) ∧
      (∀ slot ∈ stores, Below address (8 * (words.length + 1)) slot) ∧
      Pushed address (words ++ [state.regs reg]) initial (execute state (.push reg)) := by
  have lower : state.regs .rsp - 8 = address - UInt64.ofNat (8 * (words.length + 1)) := by
    rw [pushed.pointer, Nat.mul_add, UInt64.ofNat_add]
    change address - UInt64.ofNat (8 * words.length) - UInt64.ofNat 8 = _
    grind
  refine ⟨_, performs_of_decode (fun rest => decode_pushR64 rest reg) (by simp) state, ?_, ?_⟩
  · intro slot listed
    obtain ⟨i, near, rfl⟩ := List.mem_map.mp listed
    rw [lower]
    exact below_word address (List.mem_range.mp near) (by omega)
  · constructor
    · rw [List.length_append, List.length_singleton, ← lower]
      rfl
    · change Stacked address _ initial (state.memory.write (state.regs .rsp - 8) _)
      rw [lower]
      exact pushed.stack.push small (state.regs reg)

theorem performs_pushes {address : UInt64} {words : List UInt64}
    {initial : AddressSpace} {state : X86State}
    (pushed : Pushed address words initial state) {regs : List X86Reg}
    (small : 8 * (words.length + regs.length) ≤ 2 ^ 32)
    (notStack : .rsp ∉ regs) :
    ∃ stores after, processor.Performs (regs.flatMap pushR64) state stores after ∧
      (∀ slot ∈ stores, Below address (8 * (words.length + regs.length)) slot) ∧
      Pushed address (words ++ regs.map state.regs) initial after ∧
        ∀ reg ≠ .rsp, after.regs reg = state.regs reg := by
  induction regs generalizing words state with
  | nil => exact ⟨[], state, .refl state,
      fun _ none => absurd none List.not_mem_nil, by simpa using pushed, fun _ _ => rfl⟩
  | cons reg regs ih =>
    rw [List.length_cons] at small
    obtain ⟨one, push, below, first⟩ := performs_push pushed (by omega) reg
    have unchanged : ∀ other ≠ X86Reg.rsp,
        (execute state (.push reg)).regs other = state.regs other :=
      fun other ne => Function.update_of_ne ne ..
    obtain ⟨two, after, pushes, belows, rest, still⟩ := ih first
      (by rw [List.length_append, List.length_singleton]; omega) fun listed =>
        notStack (List.mem_cons_of_mem _ listed)
    refine ⟨one ++ two, after, push.trans pushes, ?_, ?_, fun other ne =>
      (still other ne).trans (unchanged other ne)⟩
    · intro slot listed
      rcases List.mem_append.mp listed with here | later
      · exact (below slot here).mono (by rw [List.length_cons]; omega)
      · exact (belows slot later).mono
          (by rw [List.length_cons, List.length_append, List.length_singleton]; omega)
    · have values : regs.map (execute state (.push reg)).regs = regs.map state.regs :=
        List.map_congr_left fun other listed => unchanged other fun same =>
          notStack (same ▸ List.mem_cons_of_mem _ listed)
      rw [values, List.append_assoc] at rest
      exact rest

theorem performs_pops {address : UInt64} {regs : List X86Reg}
    {word : X86Reg → UInt64} {state : X86State}
    (pointer : state.regs .rsp = address - UInt64.ofNat (8 * regs.length))
    (held : ∀ (i : Nat) (reg : X86Reg), regs[i]? = some reg →
      state.memory.peek (address - UInt64.ofNat (8 * (i + 1))) 8 = u64 (word reg))
    (distinct : regs.Nodup) (notStack : .rsp ∉ regs) :
    ∃ after, processor.Performs (regs.reverse.flatMap popR64) state [] after ∧
      after.regs .rsp = address ∧
      after.memory = state.memory ∧ (∀ reg ∈ regs, after.regs reg = word reg) ∧
      ∀ reg ∉ regs, reg ≠ .rsp → after.regs reg = state.regs reg := by
  induction regs using List.reverseRecOn generalizing state with
  | nil =>
    exact ⟨state,
      .refl state,
      by simpa using pointer, rfl, fun _ none => absurd none List.not_mem_nil, fun _ _ _ => rfl⟩
  | append_singleton regs reg ih =>
    rw [List.length_append, List.length_singleton] at pointer
    obtain ⟨distinct, -, apart⟩ := List.nodup_append.mp distinct
    have ne : reg ≠ .rsp :=
      fun same => notStack (by rw [same]; exact List.mem_append_right _ List.mem_cons_self)
    have outside : reg ∉ regs := fun listed => apart reg listed reg List.mem_cons_self rfl
    have top := held regs.length reg (List.getElem?_concat_length ..)
    have pop := performs_of_decode (fun rest => decode_popR64 rest reg) (by simp) state
    have value : (execute state (.pop reg)).regs reg = word reg := by
      change Function.update _ reg _ reg = _
      rw [Function.update_self, pointer, top, u64Of_u64]
    have others : ∀ other ≠ reg, other ≠ .rsp →
        (execute state (.pop reg)).regs other = state.regs other :=
      fun other notReg notRsp =>
        (Function.update_of_ne notReg ..).trans (Function.update_of_ne notRsp ..)
    have lower : (execute state (.pop reg)).regs .rsp =
        address - UInt64.ofNat (8 * regs.length) := by
      have moved : (execute state (.pop reg)).regs .rsp =
          (setReg state .rsp (state.regs .rsp + 8)).regs .rsp :=
        Function.update_of_ne ne.symm ..
      rw [moved]
      change Function.update state.regs .rsp (state.regs .rsp + 8) .rsp = _
      rw [Function.update_self, pointer, Nat.mul_add, UInt64.ofNat_add]
      change address - (UInt64.ofNat (8 * regs.length) + 8) + 8 = _
      grind
    obtain ⟨after, pops, back, memory, values, still⟩ := @ih (execute state (.pop reg)) lower
      (fun i other found => held i other
        (by rw [List.getElem?_append_left (List.getElem?_eq_some_iff.mp found).1, found]))
      distinct fun listed => notStack (List.mem_append_left _ listed)
    refine ⟨after, ?_, back, memory, ?_, ?_⟩
    · rw [List.reverse_append, List.reverse_singleton, List.singleton_append, List.flatMap_cons]
      exact pop.trans pops
    · intro other listed
      rcases List.mem_append.mp listed with earlier | last
      · exact values other earlier
      · obtain rfl := List.mem_singleton.mp last
        exact (still other outside ne).trans value
    · intro other listed notRsp
      have notReg : other ≠ reg :=
        fun same => listed (by rw [same]; exact List.mem_append_right _ List.mem_cons_self)
      exact (still other (fun earlier => listed (List.mem_append_left _ earlier)) notRsp).trans
        (others other notReg notRsp)

/-- The registers that belong to the caller. -/
def calleeSaved : List X86Reg := [.rbx, .rbp, .r12, .r13, .r14, .r15]

/-- They are saved in this order. -/
def savedRegs : List X86Reg := [.rbp, .rbx, .r12, .r13, .r14, .r15]

/-- Inside the function: the caller's registers are on the stack, under them room for 64 bytes. -/
structure Entered (entry state : X86State) : Prop where
  pointer : state.regs .rsp = entry.regs .rsp - 112
  stack : Stacked (entry.regs .rsp) (savedRegs.map entry.regs) entry.memory state.memory

theorem performs_prologue (entry : X86State) :
    ∃ stores state, processor.Performs emitPrologue entry stores state ∧
    (∀ slot ∈ stores, Below (entry.regs .rsp) 48 slot) ∧ Entered entry state := by
  have start : Pushed (entry.regs .rsp) [] entry.memory entry :=
    ⟨(UInt64.sub_zero _).symm, .nil _ _⟩
  obtain ⟨one, push, below, first⟩ := performs_push start (by decide) .rbp
  have move := performs_of_decode (fun rest => decode_movR64R64 rest .rsp .rbp) (by simp)
    (execute entry (.push .rbp))
  have framed : Pushed (entry.regs .rsp)
      [entry.regs .rbp] entry.memory (execute (execute entry (.push .rbp)) (.mov .rbp .rsp)) :=
    ⟨first.pointer, first.stack⟩
  obtain ⟨two, after, pushes, belows, rest, still⟩ :=
    @performs_pushes _ _ _ _ framed [.rbx, .r12, .r13, .r14, .r15]
    (by rw [List.length_singleton]; decide) (by decide)
  have frame := performs_of_decode (fun rest => decode_addR64Imm32 rest .rsp (-64)) (by simp) after
  have performs := ((push.trans move).trans pushes).trans frame
  refine ⟨_, _, performs, ?_, ?_, ?_⟩
  · intro slot listed
    have stores : slot ∈ one ∨ slot ∈ two := by simpa [stored] using listed
    rcases stores with here | later
    · exact (below slot here).mono (by decide)
    · exact belows slot later
  · have room : signExtend (-64) = 0 - 64 := by decide
    change after.regs .rsp + signExtend (-64) = _
    rw [rest.pointer, room]
    change entry.regs .rsp - 48 + (0 - 64) = entry.regs .rsp - 112
    grind
  · exact rest.stack

theorem trace_epilogue {entry state : X86State} (entered : Entered entry state) (rest : Bytes) :
    ∃ last, processor.trace (emitEpilogue ++ rest) state = some ([], .ret, last) ∧
      last.regs .rsp = entry.regs .rsp ∧ (∀ reg ∈ calleeSaved, last.regs reg = entry.regs reg) ∧
      last.memory = state.memory := by
  have frame := performs_of_decode (fun rest => decode_addR64Imm32 rest .rsp 64) (by simp) state
  have pointer : (execute state (.addImm32 .rsp 64)).regs .rsp =
      entry.regs .rsp - UInt64.ofNat (8 * 6) := by
    have room : signExtend 64 = 64 := by decide
    change state.regs .rsp + signExtend 64 = _
    rw [entered.pointer, room]
    change entry.regs .rsp - 112 + 64 = entry.regs .rsp - 48
    grind
  obtain ⟨last, pops, back, memory, values, -⟩ :=
    @performs_pops (entry.regs .rsp) savedRegs entry.regs
    (execute state (.addImm32 .rsp 64)) pointer
    (fun i reg found => entered.stack.held i _ (by rw [List.getElem?_map, found, Option.map_some]))
      (by decide) (by decide)
  refine ⟨last, ?_, back, fun reg listed => values reg (by revert reg; decide), memory⟩
  have whole : emitEpilogue ++ rest =
      addR64Imm32 .rsp 64 ++ savedRegs.reverse.flatMap popR64 ++ (ret ++ rest) := by
    simp [emitEpilogue, savedRegs]
  have returned : processor.trace (ret ++ rest) last = some ([], .ret, last) :=
    Processor.trace_return (show processor.next (ret ++ rest) = some (.ret, rest) from rfl) rfl
  rw [whole, (frame.trans pops) (ret ++ rest), returned]
  rfl

/-- The code returns to its caller with the stack pointer and the caller's registers as at the
entry, and has stored nothing but 48 bytes below the stack pointer. -/
structure Conventional (code : Bytes) (entry : X86State) (stores : List UInt64)
    (final : X86State) : Prop where
  returns : run code entry = some (u64Of (entry.memory.peek (entry.regs .rsp) 8), final)
  trace : ∃ last, processor.trace code entry = some (stores, .ret, last)
  -- The return takes its address off the stack.
  pointer : final.regs .rsp = entry.regs .rsp + 8
  registers : ∀ reg ∈ calleeSaved, final.regs reg = entry.regs reg
  below : ∀ address ∈ stores, Below (entry.regs .rsp) 48 address
  memory : ∀ address, ¬Below (entry.regs .rsp) 48 address →
    final.memory address = entry.memory address

theorem conventional {function : Function} {code : Bytes}
    (accepted : generate function = .ok code) (entry : X86State) :
    ∃ stores final, Conventional code entry stores final := by
  unfold generate at accepted
  cases emitted : emitInstructions emitInstruction initial
    (function.blocks.flatMap (·.instructions)) with
  | error stop =>
    rw [emitted] at accepted
    cases accepted
  | ok made =>
    obtain ⟨body, next⟩ := made
    rw [emitted] at accepted
    cases accepted
    obtain ⟨piece, rest, quiet, same⟩ :=
      bodied_instructions keepsCaller_refl keepsCaller_trans bodied_instruction
      (show Pooled freeRegs initial from fun _ listed => listed) emitted
    obtain ⟨stores, state, prologue, below, entered⟩ := performs_prologue entry
    obtain ⟨after, performs, kept⟩ := quiet state
    have still : Entered entry after := by
      refine ⟨(kept.2 .rsp (by decide)).trans entered.pointer, ?_⟩
      rw [kept.1]
      exact entered.stack
    obtain ⟨last, left, pointer, registers, memory⟩ := trace_epilogue still rest
    have trace : processor.trace (emitPrologue ++ body ++ emitEpilogue) entry =
        some (stores, .ret, last) := by
      rw [List.append_assoc, same, prologue, performs, left]
      simp
    have caller : last.memory.peek (entry.regs .rsp) 8 = entry.memory.peek (entry.regs .rsp) 8 := by
      rw [memory]
      exact still.stack.peek_base (by rw [List.length_map]; decide)
    refine ⟨stores, setReg last .rsp (last.regs .rsp + 8), ?_, ⟨last, trace⟩, ?_, ?_, below, ?_⟩
    · rw [run_eq_trace, trace, Option.map_some]
      dsimp only
      rw [pointer, caller]
    · change Function.update last.regs .rsp (last.regs .rsp + 8) .rsp = _
      rw [Function.update_self, pointer]
    · intro reg listed
      have ne : reg ≠ .rsp := by
        rintro rfl
        exact absurd listed (by decide)
      exact (Function.update_of_ne ne ..).trans (registers reg listed)
    · intro address outside
      change last.memory address = _
      rw [memory]
      exact still.stack.rest address outside

end VectorTick.Jit.X86CodeGenerator
