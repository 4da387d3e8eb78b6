import VectorTick.Foundation.WordStack
import VectorTick.Jit.A64Correctness
import VectorTick.Jit.X86Convention

/-! What a caller of the AArch64 generator's code relies on. -/

set_option autoImplicit false

namespace VectorTick.Jit.A64

open Foundation

/-- The addresses of the bytes that an instruction stores. -/
def stored (state : A64State) : A64Instruction → List UInt64
  | .stpPre _ _ base offset =>
    (List.range 16).map fun i => state.regs base + offset + UInt64.ofNat i
  | _ => []

def next : List UInt32 → Option (A64Instruction × List UInt32)
  | [] => none
  | word :: rest => (decode word).map fun instr => (instr, rest)

theorem length_next {code rest : List UInt32} {instr : A64Instruction}
    (found : next code = some (instr, rest)) :
    rest.length < code.length := by
  cases code with
  | nil => cases found
  | cons word more =>
    obtain ⟨_, _, same⟩ := Option.map_eq_some_iff.mp found
    cases same
    exact Nat.lt_succ_self _

def isReturn : A64Instruction → Bool
  | .ret _ => true
  | _ => false

def processor : Processor UInt32 A64Instruction A64State where
  next := next
  shorter := length_next
  returns := isReturn
  execute := execute
  stored := stored

theorem next_of_decode {word : UInt32} {instr : A64Instruction}
    (decoded : decode word = some instr) (rest : List UInt32) :
    processor.next (word :: rest) = some (instr, rest) := by
  change (decode word).map (fun instr => (instr, rest)) = _
  rw [decoded, Option.map_some]

/-- Where a return goes to. -/
def returnsTo (state : A64State) : A64Instruction → UInt64
  | .ret target => read state target
  | _ => 0

theorem run_eq_trace (code : List UInt32) (state : A64State) : run code state =
    (processor.trace code state).map fun run => (returnsTo run.2.2 run.2.1, run.2.2) := by
  induction code generalizing state with
  | nil => rfl
  | cons word rest ih =>
    rw [run]
    cases decoded : decode word with
    | none =>
      have none : processor.next (word :: rest) = none := by
        change (decode word).map _ = _
        rw [decoded, Option.map_none]
      unfold Processor.trace
      rw [List.length_cons, Processor.traceFuel, none]
      rfl
    | some instr =>
      have found := next_of_decode decoded rest
      have later := ih (execute state instr)
      cases returns : processor.returns instr with
      | true =>
        rw [Processor.trace_return found returns]
        cases instr <;> first | rfl | exact absurd returns Bool.false_ne_true
      | false =>
        rw [Processor.trace_step found returns, Option.map_map]
        cases instr <;> first | exact later | exact absurd returns.symm Bool.false_ne_true

theorem performs_of_decode {word : UInt32} {instr : A64Instruction}
    (decoded : decode word = some instr)
    (goesOn : isReturn instr = false) (state : A64State) :
    processor.Performs [word] state (stored state instr) (execute state instr) := by
  have found : ∀ rest, processor.next ([word] ++ rest) = some (instr, rest) :=
    next_of_decode decoded
  exact .of_next found goesOn state

end VectorTick.Jit.A64

namespace VectorTick.Jit.A64CodeGenerator

open Foundation Ir A64 A64Assembler
open ReferenceInterpreter (operand)

/-- The registers that results are given to. -/
def resultRegs : List A64Reg := .x0 :: freeRegs

/-- Nothing changes but the flags and the registers that results are given to. -/
def KeepsCaller (state after : A64State) : Prop :=
  after.memory = state.memory ∧ ∀ reg ∉ resultRegs, after.regs reg = state.regs reg

theorem keepsCaller_refl (state : A64State) : KeepsCaller state state := ⟨rfl, fun _ _ => rfl⟩

theorem keepsCaller_trans (first second third : A64State) (one : KeepsCaller first second)
    (two : KeepsCaller second third) :
    KeepsCaller first third :=
  ⟨two.1.trans one.1, fun reg outside => (two.2 reg outside).trans (one.2 reg outside)⟩

/-- An instruction of a body: it writes a register for results, or none. -/
def InBody : A64Instruction → Prop
  | .nop => True
  | .data _ dst _ _ | .subs dst _ _ | .movz dst _ _ | .movk dst _ _ | .csel dst
      _ _ _ | .csinc dst _ _ _
  | .load _ dst _ _ => dst ∈ resultRegs ∨ dst = .xzr
  | .stpPre .. | .ldpPost .. | .ret _ => False

theorem keepsCaller_write {dst : A64Reg} (listed : dst ∈ resultRegs ∨ dst = .xzr)
    (state : A64State) (value : UInt64)
    (flags : A64Flags) : KeepsCaller state { write state dst value with flags := flags } := by
  unfold write
  by_cases zero : dst = .xzr
  · rw [if_pos zero]
    exact ⟨rfl, fun _ _ => rfl⟩
  · rw [if_neg zero]
    have given := listed.resolve_right zero
    exact ⟨rfl, fun reg outside =>
      Function.update_of_ne (show reg ≠ dst from fun same => outside (same ▸ given)) ..⟩

theorem keepsCaller_execute {instr : A64Instruction} (body : InBody instr) (state : A64State) :
    KeepsCaller state (execute state instr) := by
  cases instr with
  | nop => exact keepsCaller_refl state
  | stpPre => exact body.elim
  | ldpPost => exact body.elim
  | ret => exact body.elim
  | subs dst src1 src2 => exact keepsCaller_write body state _ _
  | data op dst src1 src2 => exact keepsCaller_write body state _ (write state dst _).flags
  | movz dst imm part => exact keepsCaller_write body state _ (write state dst _).flags
  | movk dst imm part => exact keepsCaller_write body state _ (write state dst _).flags
  | csel dst src1 src2 cond => exact keepsCaller_write body state _ (write state dst _).flags
  | csinc dst src1 src2 cond => exact keepsCaller_write body state _ (write state dst _).flags
  | load size dst base offset => exact keepsCaller_write body state _ (write state dst _).flags

abbrev QuietCode (piece : List UInt32) : Prop := processor.Quiet KeepsCaller piece

theorem quiet_of_decode {word : UInt32} {instr : A64Instruction}
    (decoded : decode word = some instr)
    (body : InBody instr) : QuietCode [word] := by
  intro state
  have goesOn : isReturn instr = false := by cases instr <;> first | rfl | exact body.elim
  have performs := performs_of_decode decoded goesOn state
  have silent : stored state instr = [] := by cases instr <;> first | rfl | exact body.elim
  rw [silent] at performs
  exact ⟨_, performs, keepsCaller_execute body state⟩

theorem QuietCode.append {first second : List UInt32} (one : QuietCode first)
    (two : QuietCode second) :
    QuietCode (first ++ second) := Processor.Quiet.append keepsCaller_trans one two

theorem quiet_nil : QuietCode [] := .nil keepsCaller_refl

theorem quiet_if {condition : Prop} [Decidable condition] {piece : List UInt32}
    (quiet : QuietCode piece) :
    QuietCode (if condition then piece else []) := by
  split
  · exact quiet
  · exact quiet_nil

section Instructions

variable {g next : Allocation A64Reg} {instr : Instruction} {code : List UInt32} {dst : A64Reg}

theorem quiet_mov (listed : dst ∈ resultRegs) (src : A64Reg) : QuietCode [movX64X64 dst src] :=
  quiet_of_decode (decode_movX64X64 dst src) (.inl listed)

theorem quiet_movImm64 (listed : dst ∈ resultRegs) (imm : UInt64) :
    QuietCode (movX64Imm64 dst imm) := by
  have part {shift : UInt8} (isShift : IsShift shift)
      (bits : UInt16) : QuietCode [movkX64 dst bits shift] :=
    quiet_of_decode (decode_movkX64 dst bits isShift) (.inl listed)
  have first : QuietCode [movzX64 dst (imm &&& 0xFFFF).toUInt16 0] :=
    quiet_of_decode (decode_movzX64 dst _ (.inl rfl)) (.inl listed)
  exact ((first.append (quiet_if (part (.inr (.inl rfl)) _))).append
    (quiet_if (part (.inr (.inr (.inl rfl))) _))).append
    (quiet_if (part (.inr (.inr (.inr rfl))) _))

theorem quiet_moveU32 (listed : dst ∈ resultRegs) (constant : Constant) :
    QuietCode (moveU32 dst constant) := by
  have first : QuietCode [movzX64 dst (constant.getU32 &&& 0xFFFF).toUInt16 0] :=
    quiet_of_decode (decode_movzX64 dst _ (.inl rfl)) (.inl listed)
  exact first.append
    (quiet_if (quiet_of_decode (decode_movkX64 dst _ (.inr (.inl rfl))) (.inl listed)))

theorem quiet_loadColumn (listed : dst ∈ resultRegs) (cid : UInt32) :
    QuietCode (loadColumn dst cid) := by
  have eight : ∀ offset ∈ [0, 8, 16, 32, 48], QuietCode [ldrX64 dst .x19 (Int32.ofNat offset)] :=
    fun offset known => quiet_of_decode (decode_ldrX64 dst offset known) (.inl listed)
  have four : ∀ offset ∈ [24, 40], QuietCode [ldrW32 dst .x19 (Int32.ofNat offset)] :=
    fun offset known => quiet_of_decode (decode_ldrW32 dst offset known) (.inl listed)
  have two : ∀ offset ∈ [30, 44, 46], QuietCode [ldrh dst .x19 (Int32.ofNat offset)] :=
    fun offset known => quiet_of_decode (decode_ldrh dst offset known) (.inl listed)
  have one : ∀ offset ∈ [28, 29], QuietCode [ldrb dst .x19 (Int32.ofNat offset)] :=
    fun offset known => quiet_of_decode (decode_ldrb dst offset known) (.inl listed)
  unfold loadColumn
  generalize cid.toNat = column
  match column with
  | 0 => exact eight 0 (by decide)
  | 1 => exact eight 8 (by decide)
  | 2 => exact eight 16 (by decide)
  | 3 => exact four 24 (by decide)
  | 4 => exact one 28 (by decide)
  | 5 => exact one 29 (by decide)
  | 6 => exact two 30 (by decide)
  | 7 => exact eight 32 (by decide)
  | 8 => exact four 40 (by decide)
  | 9 => exact two 44 (by decide)
  | 10 => exact two 46 (by decide)
  | 11 => exact eight 48 (by decide)
  | _ + 12 => exact quiet_movImm64 listed 0

theorem x0_listed : A64Reg.x0 ∈ resultRegs := by decide

theorem bodied_result {fill : A64Reg → List UInt32} (pooled : Pooled resultRegs g)
    (quiet : ∀ dst ∈ resultRegs, QuietCode (fill dst))
    (emitted : emitResult g instr fill = .ok (code, next)) :
    Bodied processor KeepsCaller emitEpilogue code ∧ Pooled resultRegs next := by
  cases emitted
  obtain ⟨listed, left⟩ := pooled.allocateReg x0_listed
  exact ⟨.inl (quiet _ listed), left⟩

theorem bodied_constant {move : A64Reg → Constant → List UInt32} (pooled : Pooled resultRegs g)
    (quiet : ∀ dst ∈ resultRegs, ∀ constant, QuietCode (move dst constant))
    (emitted : emitConstant g instr move = .ok (code, next)) :
    Bodied processor KeepsCaller emitEpilogue code ∧ Pooled resultRegs next := by
  unfold emitConstant at emitted
  cases payload : instr.payload with
  | constant constant =>
    rw [payload] at emitted
    exact bodied_result pooled (fun dst listed => quiet dst listed constant) emitted
  | _ =>
    rw [payload] at emitted
    cases emitted

theorem bodied_data {op : A64Reg → A64Reg → A64Reg → UInt32} {data : DataOp}
    (pooled : Pooled resultRegs g)
    (decoded : ∀ dst lhs rhs, decode (op dst lhs rhs) = some (.data data dst lhs rhs))
    (emitted : emitBinary g instr op = .ok (code, next)) :
    Bodied processor KeepsCaller emitEpilogue code ∧ Pooled resultRegs next :=
  bodied_result pooled (fun dst listed => quiet_of_decode (decoded dst _ _) (.inl listed)) emitted

theorem quiet_cmp (lhs rhs : A64Reg) : QuietCode [cmpX64X64 lhs rhs] :=
  quiet_of_decode (decode_cmpX64X64 lhs rhs) (.inr rfl)

theorem bodied_compare {cond : A64Condition} (pooled : Pooled resultRegs g)
    (emitted : emitCompare g instr cond = .ok (code, next)) :
    Bodied processor KeepsCaller emitEpilogue code ∧ Pooled resultRegs next := by
  unfold emitCompare at emitted
  refine bodied_result pooled (fun dst listed => ?_) emitted
  have sets : QuietCode [csetX64 dst cond] :=
    quiet_of_decode (decode_csetX64 dst cond) (.inl listed)
  exact (quiet_cmp _ _).append sets

theorem bodied_return : Bodied processor KeepsCaller emitEpilogue (emitReturn g instr) := by
  unfold emitReturn
  cases instr.operands with
  | nil => exact .inr ⟨_, quiet_movImm64 x0_listed 0, rfl⟩
  | cons id others => exact .inr ⟨_, quiet_if (quiet_mov x0_listed (getReg g id)), rfl⟩

theorem bodied_instruction (pooled : Pooled resultRegs g)
    (emitted : emitInstruction g instr = .ok (code, next)) :
    Bodied processor KeepsCaller emitEpilogue code ∧ Pooled resultRegs next := by
  have wide : ∀ dst ∈ resultRegs, ∀ constant : Constant,
      QuietCode (movX64Imm64 dst constant.getU64) :=
    fun dst listed constant => quiet_movImm64 listed constant.getU64
  unfold emitInstruction at emitted
  cases op : instr.opcode <;> simp only [op] at emitted <;> first | cases emitted; done | skip
  case nop =>
    cases emitted
    exact ⟨.inl (quiet_of_decode decode_nop trivial), pooled⟩
  case return_ =>
    cases emitted
    exact ⟨bodied_return, pooled⟩
  case constU64 => exact bodied_constant pooled wide emitted
  case constI64 => exact bodied_constant pooled wide emitted
  case constU32 =>
    exact bodied_constant pooled (fun dst listed constant => quiet_moveU32 listed constant) emitted
  case loadColumn =>
    cases payload : instr.payload with
    | column cid =>
      simp only [payload] at emitted
      exact bodied_result pooled (fun dst listed => quiet_loadColumn listed cid) emitted
    | _ =>
      simp only [payload] at emitted
      cases emitted
  case select =>
    refine bodied_result pooled (fun dst listed => ?_) emitted
    have chosen : QuietCode [cselX64 dst (getReg g (operand instr 1))
        (getReg g (operand instr 2)) .ne] :=
      quiet_of_decode (decode_cselX64 dst _ _ .ne) (.inl listed)
    exact (quiet_cmp _ _).append chosen
  case addU64 => exact bodied_data pooled decode_addX64X64X64 emitted
  case addI64 => exact bodied_data pooled decode_addX64X64X64 emitted
  case subU64 => exact bodied_data pooled decode_subX64X64X64 emitted
  case subI64 => exact bodied_data pooled decode_subX64X64X64 emitted
  case mulU64 => exact bodied_data pooled decode_mulX64X64X64 emitted
  case mulI64 => exact bodied_data pooled decode_mulX64X64X64 emitted
  case divU64 => exact bodied_data pooled decode_udivX64X64X64 emitted
  case divI64 => exact bodied_data pooled decode_sdivX64X64X64 emitted
  case and => exact bodied_data pooled decode_andX64X64X64 emitted
  case bitAnd => exact bodied_data pooled decode_andX64X64X64 emitted
  case or => exact bodied_data pooled decode_orrX64X64X64 emitted
  case bitOr => exact bodied_data pooled decode_orrX64X64X64 emitted
  case bitXor => exact bodied_data pooled decode_eorX64X64X64 emitted
  all_goals exact bodied_compare pooled emitted

end Instructions

/-- The stack has grown by the words from the address on, and the memory
from there on is as it was. -/
structure Pushed (address : UInt64) (words : List UInt64) (initial : AddressSpace)
    (machine : A64State) : Prop where
  pointer : machine.regs .sp = address - UInt64.ofNat (8 * words.length)
  stack : Stacked address words initial machine.memory

/-- The words of pairs as they are pushed, the second of each pair above the first. -/
def pairWords (read : A64Reg → UInt64) (pairs : List (A64Reg × A64Reg)) : List UInt64 :=
  pairs.flatMap fun pair => [read pair.2, read pair.1]

/-- The registers that are saved behind the frame pointer and the link. -/
def savedPairs : List (A64Reg × A64Reg) :=
  [(.x19, .x20), (.x21, .x22), (.x23, .x24), (.x25, .x26), (.x27, .x28)]

theorem decode_pairs : ∀ pair ∈ (.x29, .x30) :: savedPairs,
    decode (stpPre pair.1 pair.2 .sp (-16)) = some (.stpPre pair.1 pair.2 .sp (-16)) ∧
      decode (ldpPost pair.1 pair.2 .sp 16) = some (.ldpPost pair.1 pair.2 .sp 16) ∧
      pair.1 ≠ .sp ∧ pair.2 ≠ .sp ∧ pair.1 ≠ pair.2 := by decide +kernel

theorem performs_pair {address : UInt64} {words : List UInt64}
    {initial : AddressSpace} {machine : A64State}
    (pushed : Pushed address words initial machine) (small : 8 * (words.length + 2) ≤ 2 ^ 32)
    {pair : A64Reg × A64Reg}
    (listed : pair ∈ (.x29, .x30) :: savedPairs) :
    ∃ stores, processor.Performs [stpPre pair.1 pair.2 .sp (-16)] machine stores
        (execute machine (.stpPre pair.1 pair.2 .sp (-16))) ∧
      (∀ slot ∈ stores, Below address (8 * (words.length + 2)) slot) ∧
      Pushed address (words ++ [machine.regs pair.2, machine.regs pair.1]) initial
        (execute machine (.stpPre pair.1 pair.2 .sp (-16))) := by
  obtain ⟨decoded, -, notStack1, notStack2, -⟩ := decode_pairs pair listed
  have lower : machine.regs .sp + (-16) = address - UInt64.ofNat (8 * (words.length + 2)) := by
    rw [pushed.pointer, Nat.mul_add, UInt64.ofNat_add]
    change address - UInt64.ofNat (8 * words.length) + (0 - UInt64.ofNat 16) = _
    grind
  refine ⟨_, performs_of_decode decoded rfl machine, ?_, ?_⟩
  · intro slot found
    obtain ⟨i, near, rfl⟩ := List.mem_map.mp found
    have inside := List.mem_range.mp near
    rw [lower]
    exact ⟨8 * (words.length + 2) - i, by omega, by omega, sub_add_ofNat address (by omega)⟩
  · constructor
    · change Function.update machine.regs .sp (machine.regs .sp + (-16)) .sp = _
      rw [Function.update_self, lower, List.length_append]
      rfl
    · change Stacked address _ initial (machine.memory.write (machine.regs .sp + (-16)) _)
      rw [lower, read_real notStack1, read_real notStack2]
      exact pushed.stack.push_pair small (machine.regs pair.1) (machine.regs pair.2)

theorem performs_pairs {address : UInt64} {words : List UInt64}
    {initial : AddressSpace} {machine : A64State}
    (pushed : Pushed address words initial machine) {pairs : List (A64Reg × A64Reg)}
    (small : 8 * (words.length + 2 * pairs.length) ≤ 2 ^ 32)
    (listed : ∀ pair ∈ pairs, pair ∈ (.x29, .x30) :: savedPairs) :
    ∃ stores after, processor.Performs
      (pairs.map fun pair => stpPre pair.1 pair.2 .sp (-16)) machine stores after ∧
      (∀ slot ∈ stores, Below address (8 * (words.length + 2 * pairs.length)) slot) ∧
      Pushed address (words ++ pairWords machine.regs pairs) initial after ∧
      ∀ reg ≠ .sp, after.regs reg = machine.regs reg := by
  induction pairs generalizing words machine with
  | nil =>
    exact ⟨[], machine, .refl machine,
      fun _ none => absurd none List.not_mem_nil, by simpa [pairWords] using pushed,
      fun _ _ => rfl⟩
  | cons pair pairs ih =>
    rw [List.length_cons] at small
    obtain ⟨one, push, below, first⟩ :=
      performs_pair pushed (by omega) (listed pair List.mem_cons_self)
    have unchanged : ∀ reg ≠ A64Reg.sp,
        (execute machine (.stpPre pair.1 pair.2 .sp (-16))).regs reg = machine.regs reg :=
      fun reg ne => Function.update_of_ne ne ..
    have two : ∀ high low : UInt64, (words ++ [high, low]).length = words.length + 2 :=
      fun _ _ => List.length_append
    obtain ⟨later, after, pushes, belows, rest, still⟩ := ih first (by rw [two]; omega)
      fun other found => listed other (List.mem_cons_of_mem _ found)
    refine ⟨one ++ later, after, push.trans pushes, ?_, ?_,
      fun reg ne => (still reg ne).trans (unchanged reg ne)⟩
    · intro slot found
      rcases List.mem_append.mp found with here | there
      · exact (below slot here).mono (by rw [List.length_cons]; omega)
      · exact (belows slot there).mono (by rw [List.length_cons, two]; omega)
    · have values : pairWords (execute machine (.stpPre pair.1 pair.2 .sp (-16))).regs pairs =
          pairWords machine.regs pairs := by
        refine List.flatMap_congr fun other found => ?_
        obtain ⟨-, -, notStack1, notStack2, -⟩ :=
          decode_pairs other (listed other (List.mem_cons_of_mem _ found))
        rw [unchanged _ notStack1, unchanged _ notStack2]
      rw [values, List.append_assoc] at rest
      exact rest

theorem getElem?_pairWords {read : A64Reg → UInt64} {pairs : List (A64Reg × A64Reg)} {i : Nat}
    {pair : A64Reg × A64Reg}
    (found : pairs[i]? = some pair) :
    (pairWords read pairs)[2 * i]? = some (read pair.2) ∧ (pairWords read pairs)[2 * i + 1]? =
      some (read pair.1) := by
  induction pairs generalizing i with
  | nil => cases found
  | cons first rest ih =>
    cases i with
    | zero =>
      cases found
      exact ⟨rfl, rfl⟩
    | succ i => exact ih found

/-- The registers of pairs. -/
def pairRegs (pairs : List (A64Reg × A64Reg)) : List A64Reg :=
  pairs.flatMap fun pair => [pair.1, pair.2]

theorem performs_pop {address : UInt64} {depth : Nat} {machine : A64State} {word : A64Reg → UInt64}
    (pointer : machine.regs .sp = address - UInt64.ofNat (8 * (2 * depth + 2)))
    {pair : A64Reg × A64Reg}
    (listed : pair ∈ (.x29, .x30) :: savedPairs)
    (high : machine.memory.peek (address - UInt64.ofNat (8 * (2 * depth + 1))) 8 =
      u64 (word pair.2))
    (low : machine.memory.peek (address - UInt64.ofNat (8 * (2 * depth + 2))) 8 =
      u64 (word pair.1)) :
    ∃ after, processor.Performs [ldpPost pair.1 pair.2 .sp 16] machine [] after ∧
      after.regs .sp = address - UInt64.ofNat (8 * (2 * depth)) ∧ after.memory = machine.memory ∧
      after.regs pair.1 = word pair.1 ∧ after.regs pair.2 = word pair.2 ∧
      ∀ reg, reg ≠ pair.1 → reg ≠ pair.2 → reg ≠ .sp → after.regs reg = machine.regs reg := by
  obtain ⟨-, decoded, notStack1, notStack2, distinct⟩ := decode_pairs pair listed
  have performs := performs_of_decode decoded rfl machine
  have upper : machine.regs .sp + 8 = address - UInt64.ofNat (8 * (2 * depth + 1)) := by
    rw [pointer, show 8 * (2 * depth + 2) = 8 * (2 * depth + 1) + 8 by omega, UInt64.ofNat_add]
    change address - (UInt64.ofNat (8 * (2 * depth + 1)) + 8) + 8 = _
    grind
  have popped : execute machine (.ldpPost pair.1 pair.2 .sp 16) =
      setReg (setReg (setReg machine .sp (machine.regs .sp + 16)) pair.1 (word pair.1)) pair.2
        (word pair.2) := by
    have real1 : ∀ state value, write state pair.1 value = setReg state pair.1 value :=
      fun _ _ => if_neg notStack1
    have real2 : ∀ state value, write state pair.2 value = setReg state pair.2 value :=
      fun _ _ => if_neg notStack2
    rw [execute, upper, high, pointer, low, u64Of_u64, u64Of_u64, real1, real2]
  rw [popped] at performs
  refine ⟨_, performs, ?_, rfl, ?_, Function.update_self .., ?_⟩
  · have moved : (setReg (setReg (setReg machine .sp (machine.regs .sp + 16)) pair.1 (word pair.1))
        pair.2 (word pair.2)).regs .sp =
        (setReg machine .sp (machine.regs .sp + 16)).regs .sp :=
      (Function.update_of_ne notStack2.symm ..).trans (Function.update_of_ne notStack1.symm ..)
    rw [moved]
    change Function.update machine.regs .sp (machine.regs .sp + 16) .sp = _
    rw [Function.update_self, pointer, Nat.mul_add, UInt64.ofNat_add]
    change address - (UInt64.ofNat (8 * (2 * depth)) + 16) + 16 = _
    grind
  · exact (Function.update_of_ne distinct ..).trans (Function.update_self ..)
  · intro reg ne1 ne2 ne
    exact ((Function.update_of_ne ne2 ..).trans (Function.update_of_ne ne1 ..)).trans
      (Function.update_of_ne ne ..)

theorem performs_pops {address : UInt64} {pairs : List (A64Reg × A64Reg)} {machine : A64State}
    {word : A64Reg → UInt64}
    (pointer : machine.regs .sp = address - UInt64.ofNat (8 * (2 * pairs.length)))
    (held : ∀ (i : Nat) (pair : A64Reg × A64Reg), pairs[i]? = some pair →
      machine.memory.peek (address - UInt64.ofNat (8 * (2 * i + 1))) 8 = u64 (word pair.2) ∧
      machine.memory.peek (address - UInt64.ofNat (8 * (2 * i + 2))) 8 = u64 (word pair.1))
    (listed : ∀ pair ∈ pairs, pair ∈ (.x29, .x30) :: savedPairs)
    (distinct : (pairRegs pairs).Nodup) :
    ∃ after, processor.Performs
      (pairs.reverse.map fun pair => ldpPost pair.1 pair.2 .sp 16) machine [] after ∧
      after.regs .sp = address ∧ after.memory = machine.memory ∧
        (∀ reg ∈ pairRegs pairs, after.regs reg = word reg) ∧
      ∀ reg ∉ pairRegs pairs, reg ≠ .sp → after.regs reg = machine.regs reg := by
  induction pairs using List.reverseRecOn generalizing machine with
  | nil =>
    exact ⟨machine,
      .refl machine,
      by simpa using pointer, rfl, fun _ none => absurd none List.not_mem_nil, fun _ _ _ => rfl⟩
  | append_singleton pairs pair ih =>
    rw [List.length_append, List.length_singleton] at pointer
    have split : pairRegs (pairs ++ [pair]) = pairRegs pairs ++ [pair.1, pair.2] := by
      rw [pairRegs, List.flatMap_append, List.flatMap_singleton, pairRegs]
    rw [split] at distinct ⊢
    obtain ⟨distinct, -, apart⟩ := List.nodup_append.mp distinct
    have last : pair ∈ (.x29, .x30) :: savedPairs :=
      listed pair (List.mem_append_right _ List.mem_cons_self)
    obtain ⟨-, -, notStack1, notStack2, -⟩ := decode_pairs pair last
    obtain ⟨high, low⟩ := held pairs.length pair (List.getElem?_concat_length ..)
    obtain ⟨middle, pop, lower, kept, first, second, others⟩ := performs_pop pointer last high low
    obtain ⟨after, pops, back, memory, values, still⟩ := @ih middle lower
      (fun i other found => by
        rw [kept]
        exact held i other
          (by rw [List.getElem?_append_left (List.getElem?_eq_some_iff.mp found).1, found]))
      (fun other found => listed other (List.mem_append_left _ found)) distinct
    refine ⟨after, ?_, back, memory.trans kept, ?_, ?_⟩
    · rw [List.reverse_append, List.reverse_singleton, List.singleton_append, List.map_cons,
        ← List.singleton_append]
      exact pop.trans pops
    · intro reg found
      rcases List.mem_append.mp found with earlier | here
      · exact values reg earlier
      · have outside : reg ∉ pairRegs pairs := fun earlier => apart reg earlier reg here rfl
        rcases List.mem_pair.mp here with rfl | rfl
        · exact (still _ outside notStack1).trans first
        · exact (still _ outside notStack2).trans second
    · intro reg outside ne
      rw [List.mem_append, not_or, List.mem_pair, not_or] at outside
      exact (still reg outside.1 ne).trans (others reg outside.2.1 outside.2.2 ne)

/-- The registers that belong to the caller, X30 with the address to return to among them. -/
def calleeSaved : List A64Reg :=
  [.x19, .x20, .x21, .x22, .x23, .x24, .x25, .x26, .x27, .x28, .x29, .x30]

def framePairs : List (A64Reg × A64Reg) := (.x29, .x30) :: savedPairs

theorem mem_framePairs : ∀ reg ∈ calleeSaved, reg ∈ pairRegs framePairs := by decide

/-- Inside the function: the caller's registers are on the stack. -/
structure Entered (entry machine : A64State) : Prop where
  pointer : machine.regs .sp = entry.regs .sp - 96
  stack : Stacked (entry.regs .sp) (pairWords entry.regs framePairs) entry.memory machine.memory

theorem performs_move {dst : A64Reg} (real : dst ≠ .xzr) (src : A64Reg) (machine : A64State) :
    ∃ after, processor.Performs [movX64X64 dst src] machine [] after ∧
      ∃ value, Writes dst value machine after :=
  ⟨_, performs_of_decode (decode_movX64X64 dst src) rfl machine, _,
    writes_write real machine _ machine.flags⟩

theorem performs_prologue (entry : A64State) :
    ∃ stores machine, processor.Performs emitPrologue entry stores machine ∧
    (∀ slot ∈ stores, Below (entry.regs .sp) 96 slot) ∧ Entered entry machine := by
  have start : Pushed (entry.regs .sp) [] entry.memory entry := ⟨(UInt64.sub_zero _).symm, .nil _ _⟩
  obtain ⟨one, push, below, first⟩ :=
    @performs_pair _ _ _ _ start (by decide) (.x29, .x30) List.mem_cons_self
  have kept : ∀ reg ≠ A64Reg.sp, (execute entry (.stpPre .x29 .x30 .sp (-16))).regs reg =
      entry.regs reg :=
    fun reg ne => Function.update_of_ne ne ..
  dsimp only at push first
  generalize execute entry (.stpPre .x29 .x30 .sp (-16)) = stacked at push first kept
  obtain ⟨framed, link, _, writes⟩ := performs_move (show A64Reg.x29 ≠ .xzr by decide) .sp stacked
  have unchanged : ∀ reg, reg ≠ .x29 → reg ≠ .sp → framed.regs reg = entry.regs reg :=
    fun reg notLink notStack => (writes.others reg notLink).trans (kept reg notStack)
  have again : Pushed (entry.regs .sp) [entry.regs .x30, entry.regs .x29] entry.memory framed := by
    refine ⟨(writes.others .sp (by decide)).trans first.pointer, ?_⟩
    rw [writes.memory]
    exact first.stack
  obtain ⟨two, saved, pushes, belows, rest, still⟩ := @performs_pairs _ _ _ _ again savedPairs
    (by rw [List.length_cons, List.length_singleton]; decide) fun pair found =>
      List.mem_cons_of_mem _ found
  obtain ⟨after, argument, _, wrote⟩ := performs_move (show A64Reg.x19 ≠ .xzr by decide) .x0 saved
  refine ⟨_, _, ((push.trans link).trans pushes).trans argument, ?_, ?_, ?_⟩
  · intro slot found
    rw [List.append_nil, List.append_nil] at found
    rcases List.mem_append.mp found with here | later
    · exact (below slot here).mono (by decide)
    · exact belows slot later
  · rw [wrote.others .sp (by decide), rest.pointer, List.length_append,
      pairWords, List.length_flatMap]
    rfl
  · have values : pairWords framed.regs savedPairs = pairWords entry.regs savedPairs := by
      simp [pairWords, savedPairs, unchanged]
    have stack := rest.stack
    rw [values] at stack
    rw [wrote.memory]
    exact stack

theorem trace_epilogue {entry machine : A64State}
    (entered : Entered entry machine) (rest : List UInt32) :
    ∃ last, processor.trace (emitEpilogue ++ rest) machine = some ([], .ret .x30, last) ∧
      last.regs .sp = entry.regs .sp ∧ (∀ reg ∈ calleeSaved, last.regs reg = entry.regs reg) ∧
      last.memory = machine.memory := by
  obtain ⟨last, pops, back, memory, values, -⟩ :=
    @performs_pops (entry.regs .sp) framePairs machine entry.regs
    entered.pointer (fun i pair found => by
      obtain ⟨high, low⟩ := @getElem?_pairWords entry.regs _ _ _ found
      exact ⟨entered.stack.held _ _ high, entered.stack.held _ _ low⟩)
        (fun _ found => found) (by decide)
  refine ⟨last, ?_, back, fun reg found => values reg (mem_framePairs reg found), memory⟩
  have whole : emitEpilogue ++ rest =
      (framePairs.reverse.map fun pair => ldpPost pair.1 pair.2 .sp 16) ++ (ret .x30 :: rest) := rfl
  have returned : processor.trace (ret .x30 :: rest) last = some ([], .ret .x30, last) :=
    Processor.trace_return (next_of_decode (decode_ret .x30) rest) rfl
  rw [whole, pops, returned]
  rfl

/-- The code returns to its caller with the stack pointer and the caller's registers as at the
entry, and has stored nothing but 96 bytes below the stack pointer. -/
structure Conventional (code : List UInt32) (entry : A64State) (stores : List UInt64)
    (final : A64State) : Prop where
  returns : run code entry = some (entry.regs .x30, final)
  trace : processor.trace code entry = some (stores, .ret .x30, final)
  pointer : final.regs .sp = entry.regs .sp
  registers : ∀ reg ∈ calleeSaved, final.regs reg = entry.regs reg
  below : ∀ address ∈ stores, Below (entry.regs .sp) 96 address
  memory : ∀ address, ¬Below (entry.regs .sp) 96 address →
    final.memory address = entry.memory address

theorem conventional {function : Function} {code : Bytes}
    (accepted : generate function = .ok code) (entry : A64State) :
    ∃ stores final,
      Conventional (Element.word32.getMany (code.length / 4) code) entry stores final := by
  unfold generate generateWords at accepted
  cases emitted : emitInstructions emitInstruction initial
    (function.blocks.flatMap (·.instructions)) with
  | error stop =>
    rw [emitted] at accepted
    cases accepted
  | ok made =>
    obtain ⟨body, next⟩ := made
    rw [emitted] at accepted
    cases accepted
    rw [words_of_bytes]
    obtain ⟨piece, rest, quiet, same⟩ :=
      bodied_instructions keepsCaller_refl keepsCaller_trans bodied_instruction
      (show Pooled resultRegs initial from fun _ found => List.mem_cons_of_mem _ found) emitted
    obtain ⟨stores, machine, prologue, below, entered⟩ := performs_prologue entry
    obtain ⟨after, performs, kept⟩ := quiet machine
    have still : Entered entry after := by
      refine ⟨(kept.2 .sp (by decide)).trans entered.pointer, ?_⟩
      rw [kept.1]
      exact entered.stack
    obtain ⟨last, left, pointer, registers, memory⟩ := trace_epilogue still rest
    have trace : processor.trace (emitPrologue ++ body ++ emitEpilogue) entry =
        some (stores, .ret .x30, last) := by
      rw [List.append_assoc, same, prologue, performs, left]
      simp
    refine ⟨stores, last, ?_, trace, pointer, registers, below, ?_⟩
    · rw [run_eq_trace, trace, Option.map_some]
      dsimp only [returnsTo]
      rw [read_real (by decide), registers .x30 (by decide)]
    · intro address outside
      rw [memory]
      exact still.stack.rest address outside

end VectorTick.Jit.A64CodeGenerator

namespace VectorTick.Jit

open Foundation Ir

/-- The code of both generators keeps to the calling convention, and where there is room for its
frame below the stack pointer, it stores to lower addresses only. -/
theorem generated_code_conventional (function : Function) :
    (∀ code, X86CodeGenerator.generate function = .ok code → ∀ entry, ∃ stores final,
      X86CodeGenerator.Conventional code entry stores final ∧
        (48 ≤ (entry.regs .rsp).toNat → ∀ address ∈ stores, address < entry.regs .rsp)) ∧
    ∀ code, A64CodeGenerator.generate function = .ok code → ∀ entry, ∃ stores final,
      A64CodeGenerator.Conventional
        (Element.word32.getMany (code.length / 4) code) entry stores final ∧
        (96 ≤ (entry.regs .sp).toNat → ∀ address ∈ stores, address < entry.regs .sp) := by
  constructor
  · intro code accepted entry
    obtain ⟨stores, final, convention⟩ := X86CodeGenerator.conventional accepted entry
    exact ⟨stores, final, convention, fun room address found =>
      (convention.below address found).lt room⟩
  · intro code accepted entry
    obtain ⟨stores, final, convention⟩ := A64CodeGenerator.conventional accepted entry
    exact ⟨stores, final, convention, fun room address found =>
      (convention.below address found).lt room⟩

/-- A function that returns in its first block, and has another block. -/
def earlyReturn : Function :=
  ⟨[⟨[.constOp (.u64 5) 1, .returnOp 1]⟩, ⟨[.constOp (.u64 7) 2, .returnOp 2]⟩], [], 3⟩

theorem generated_code_conventional_early : ∃ x86 a64,
    X86CodeGenerator.generate earlyReturn = .ok x86 ∧
    A64CodeGenerator.generate earlyReturn = .ok a64 ∧
    (∀ entry, ∃ stores final, X86CodeGenerator.Conventional x86 entry stores final) ∧
    ∀ entry, ∃ stores final, A64CodeGenerator.Conventional
      (Element.word32.getMany (a64.length / 4) a64) entry stores final := by
  obtain ⟨x86, a64⟩ := generated_code_conventional earlyReturn
  refine ⟨_, _, rfl, rfl, fun entry => ?_, fun entry => ?_⟩
  · obtain ⟨stores, final, convention, _⟩ := x86 _ rfl entry
    exact ⟨stores, final, convention⟩
  · obtain ⟨stores, final, convention, _⟩ := a64 _ rfl entry
    exact ⟨stores, final, convention⟩

end VectorTick.Jit
