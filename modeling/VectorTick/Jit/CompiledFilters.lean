import Mathlib.Tactic
import VectorTick.Execution.LoweredCode
import VectorTick.Jit.A64Correctness

/-! Filters compiled for AArch64.

Fifteen results have registers of their own, and all later ones are in X0. The right
operand of an operation is always the newest result, so it is still there; the left one is,
if it is among the first fifteen. -/

set_option autoImplicit false

namespace VectorTick.Jit.A64CodeGenerator

open Foundation Vts1 Query Ir Evaluation Lowering ReferenceInterpreter
open A64 (run)

/-- There is code for all operators but the remainder and the unary ones. -/
def Supported : Expression → Bool
  | .literal _ _ _ | .columnRef _ _ _ => true
  | .binaryOp op left right _ _ => op ≠ .percent && Supported left && Supported right
  | .unaryOp _ _ _ _ | .functionCall _ _ _ _ => false

def isRefused : Opcode → Bool
  | .modI64 | .modU64 | .negI64 | .not => true
  | _ => false

theorem emit_lowered {instr : Instruction} (lowered : Lowered instr) (g : Allocation A64Reg) :
    if isRefused instr.opcode then
      emitInstruction g instr =
        failWith .notImplemented "Instruction not implemented in AArch64 JIT"
    else ∃ made, emitInstruction g instr = .ok made := by
  cases lowered with
  | constant value result => exact ⟨_, rfl⟩
  | column id row result type => exact ⟨_, rfl⟩
  | @binary op _ type operands result resultType =>
    by_cases isSigned : type = .i64 <;>
      cases op <;>
        simp [binaryOpcode, Builder.byType, isSigned, isRefused, emitInstruction, emitBinary,
          emitCompare, emitResult]
  | unary op operands result resultType =>
    by_cases minus : op = .minus <;> simp [unaryOpcode, minus, isRefused, emitInstruction]

theorem isRefused_binaryOpcode {op : TokenType} (type : IrType) :
    isRefused (binaryOpcode op type) = decide (op = .percent) := by
  by_cases isSigned : type =
    .i64 <;> cases op <;> simp [binaryOpcode, Builder.byType, isSigned, isRefused]

theorem supported_iff {e : Expression} (free : CallFree e) (row next : ValueId) :
    Supported e = true ↔ ∀ instr ∈ codeOf row next e, isRefused instr.opcode = false := by
  induction e using Expression.induction (Q := fun _ => True) generalizing next with
  | literal value line column =>
    simp [Supported, codeOf, isRefused, Instruction.constOp, Constant.type]
  | columnRef name line column => simp [Supported, codeOf, isRefused, Instruction.loadColumnOp]
  | binaryOp op left right line column one two =>
    simp only [Supported, Bool.and_eq_true, one free.2.1 next, two free.2.2 (next + under left + 1),
      codeOf, List.mem_append, List.mem_singleton, or_imp, forall_and, forall_eq,
      isRefused_binaryOpcode, decide_eq_false_iff_not, decide_eq_true_eq, ne_eq]
    tauto
  | unaryOp op operand line column _ =>
    have refused : isRefused (unaryOpcode op) = true := by
      by_cases minus : op = .minus <;> simp [unaryOpcode, minus, isRefused]
    simp only [Supported, codeOf, List.mem_append, List.mem_singleton, or_imp,
      forall_and, forall_eq, refused]
    simp
  | functionCall name args line column _ => exact free.elim
  | nil => trivial
  | cons => trivial

section Emitting

variable {g : Allocation A64Reg} {instrs : List Instruction}

theorem emitInstructions_accepted (each : ∀ instr ∈ instrs, ∀ g, ∃ made,
    emitInstruction g instr = .ok made) :
    ∃ made, emitInstructions emitInstruction g instrs = .ok made := by
  induction instrs generalizing g with
  | nil => exact ⟨_, rfl⟩
  | cons instr rest ih =>
    obtain ⟨⟨code, middle⟩, one⟩ := each instr List.mem_cons_self g
    obtain ⟨⟨more, after⟩, others⟩ :=
      @ih middle fun later listed => each later (List.mem_cons_of_mem instr listed)
    refine ⟨(code ++ more, after), ?_⟩
    simp only [emitInstructions, one, others, bind, Except.bind]
    rfl

theorem emitInstructions_refused {stop : Stop}
    (each : ∀ instr ∈ instrs, (∀ g, ∃ made, emitInstruction g instr = .ok made) ∨
      ∀ g, emitInstruction g instr = .error stop)
    (some : ∃ instr ∈ instrs, ∀ g, emitInstruction g instr = .error stop) :
    emitInstructions emitInstruction g instrs = .error stop := by
  induction instrs generalizing g with
  | nil => simp at some
  | cons instr rest ih =>
    rcases each instr List.mem_cons_self with accepted | refused
    · obtain ⟨⟨code, middle⟩, one⟩ := accepted g
      have later : ∃ instr ∈ rest, ∀ g, emitInstruction g instr = .error stop := by
        obtain ⟨bad, listed, refused⟩ := some
        rcases List.mem_cons.mp listed with rfl | later
        · rw [refused g] at one
          cases one
        · exact ⟨bad, later, refused⟩
      have others :=
        @ih middle (fun instr listed => each instr (List.mem_cons_of_mem _ listed)) later
      simp only [emitInstructions, one, others, bind, Except.bind]
    · simp only [emitInstructions, refused g, bind, Except.bind]

end Emitting

section Acceptance

variable {stmt : QueryStmt} {e : Expression}

theorem generate_accepted (noAggregate : NoAggregate stmt)
    (filter : stmt.whereExpr = some e) (free : CallFree e)
    (supported : Supported e = true) :
    ∃ code, generate (Builder.buildFromQuery stmt) = .ok code := by
  have each : ∀ instr ∈ codeOf 1 2 e ++ [.returnOp (2 + under e)],
      ∀ g, ∃ made, emitInstruction g instr = .ok made := by
    simp only [List.mem_append, List.mem_singleton]
    rintro instr (inside | rfl) g
    · simpa [(supported_iff free 1 2).mp supported instr inside] using emit_lowered (lowered_codeOf free 1 2 instr inside) g
    · exact ⟨_, rfl⟩
  obtain ⟨made, emitted⟩ := @emitInstructions_accepted initial _ each
  rw [buildFromQuery_codeOf (lowerStatement_filter noAggregate filter) free]
  simp [generate, generateWords, emitted]

/-- Filters with a remainder or a unary operator are refused, and no others are. -/
theorem generate_filter (noAggregate : NoAggregate stmt) (filter : stmt.whereExpr = some e) (free : CallFree e) :
    if Supported e then ∃ code, generate (Builder.buildFromQuery stmt) = .ok code
    else generate (Builder.buildFromQuery stmt) =
      failWith .notImplemented "Instruction not implemented in AArch64 JIT" := by
  by_cases supported : Supported e = true
  · rw [if_pos supported]
    exact generate_accepted noAggregate filter free supported
  · rw [if_neg supported]
    have decides : ∀ instr ∈ codeOf 1 2 e ++ [.returnOp (2 + under e)],
        (∀ g, ∃ made, emitInstruction g instr = .ok made) ∨
          ∀ g, emitInstruction g instr = failWith .notImplemented "Instruction not implemented in AArch64 JIT" := by
      simp only [List.mem_append, List.mem_singleton]
      rintro instr (inside | rfl)
      · cases refused : isRefused instr.opcode with
        | false => exact .inl fun g => by simpa [refused] using emit_lowered (lowered_codeOf free 1 2 instr inside) g
        | true => exact .inr fun g => by simpa [refused] using emit_lowered (lowered_codeOf free 1 2 instr inside) g
      · exact .inl fun g => ⟨_, rfl⟩
    have one : ∃ instr ∈ codeOf 1 2 e ++ [.returnOp (2 + under e)],
        ∀ g, emitInstruction g instr =
          failWith .notImplemented "Instruction not implemented in AArch64 JIT" := by
      rw [supported_iff free 1 2] at supported
      push Not at supported
      obtain ⟨instr, listed, refused⟩ := supported
      refine ⟨instr, List.mem_append_left _ listed, fun g => ?_⟩
      simpa [refused] using emit_lowered (lowered_codeOf free 1 2 instr listed) g
    have emitted := @emitInstructions_refused initial _ _ decides one
    rw [buildFromQuery_codeOf (lowerStatement_filter noAggregate filter) free]
    simp [generate, generateWords, emitted]
    rfl

end Acceptance

/-- `quantity % 2 = 0` -/
def evenFilter : Expression :=
  .binaryOp .equal (.binaryOp .percent (.columnRef (nameBytes "quantity") 1 1) (.literal 2 1 1) 1 1)
    (.literal 0 1 1) 1 1

theorem generate_filter_even :
    generate (Builder.buildFromQuery ⟨[⟨none, [], true⟩], [], some evenFilter, [], [],
      none, [], [], 0, 1, 1⟩) =
      failWith .notImplemented "Instruction not implemented in AArch64 JIT" := by
  have free : CallFree evenFilter := ⟨rfl, ⟨rfl, trivial, trivial⟩, trivial⟩
  have refused :=
    @generate_filter ⟨[⟨none, [], true⟩], [], some evenFilter, [], [], none, [], [], 0, 1,
    1⟩ evenFilter rfl rfl free
  rwa [if_neg (by decide)] at refused

def Logical : Expression → Bool
  | .literal value _ _ => value = 0 || value = 1
  | .binaryOp op left right _ _ =>
    match op with
    | .equal | .notEqual | .less | .lessEqual | .greater | .greaterEqual | .and | .or => true
    | .amp | .pipe | .caret => Logical left && Logical right
    | _ => false
  | .columnRef _ _ _ | .unaryOp _ _ _ _ | .functionCall _ _ _ _ => false

/-- The operands of `AND` and `OR` are zero or one: there the bitwise operations do the same. -/
def Connected : Expression → Bool
  | .binaryOp op left right _ _ =>
    (!(op = .and || op = .or) || (Logical left && Logical right)) &&
      Connected left && Connected right
  | .unaryOp _ operand _ _ => Connected operand
  | .literal _ _ _ | .columnRef _ _ _ | .functionCall _ _ _ _ => true

/-- With `n` results before it, the left operand of every operation is among the first fifteen. -/
def Fits (n : Nat) : Expression → Bool
  | .binaryOp _ left right _ _ =>
    n + under left < 15 && Fits n left && Fits (n + under left + 1) right
  | .unaryOp _ operand _ _ => Fits n operand
  | .literal _ _ _ | .columnRef _ _ _ | .functionCall _ _ _ _ => true

theorem fits_of_few {n : Nat} {e : Expression} (few : n + under e ≤ 16) : Fits n e = true := by
  induction e using Expression.induction (Q := fun _ => True) generalizing n with
  | binaryOp op left right line column one two =>
    simp only [under] at few
    simp only [Fits, Bool.and_eq_true, decide_eq_true_eq]
    exact ⟨⟨by omega, one (by omega)⟩, two (by omega)⟩
  | unaryOp op operand line column ih =>
    simp only [under] at few
    exact ih (by omega)
  | literal | columnRef | functionCall => rfl
  | nil => trivial
  | cons => trivial

section Words

variable {a b : UInt64}

theorem logical_bitwise (first : a = 0 ∨ a = 1) (second : b = 0 ∨ b = 1) :
    (a &&& b = if a ≠ 0 ∧ b ≠ 0 then 1 else 0) ∧ (a ||| b = if a ≠ 0 ∨ b ≠ 0 then 1 else 0) ∧
      (a ^^^ b = 0 ∨ a ^^^ b = 1) := by
  rcases first with rfl | rfl <;> rcases second with rfl | rfl <;> decide

theorem zero_or_one (condition : Prop) [Decidable condition] :
    (if condition then (1 : UInt64) else 0) = 0 ∨ (if condition then (1 : UInt64) else 0) = 1 := by
  by_cases holds : condition <;> simp [holds]

end Words

theorem logical_value {event : CanonicalEvent} {e : Expression}
    (logical : Logical e = true) {value : UInt64}
    (evaluated : evaluate event e = .ok value) : value = 0 ∨ value = 1 := by
  induction e using Expression.induction (Q := fun _ => True) generalizing value with
  | literal word line column =>
    cases evaluated
    simpa [Logical] using logical
  | binaryOp op left right line column one two =>
    rw [evaluate] at evaluated
    cases first : evaluate event left with
    | error stop => simp [first, bind, Except.bind] at evaluated
    | ok a =>
      cases second : evaluate event right with
      | error stop => simp [first, second, bind, Except.bind] at evaluated
      | ok b =>
        have applied : applyBinary op (operandType left right) a b = .ok value := by
          simpa [first, second, bind, Except.bind] using evaluated
        cases op <;> simp only [Logical, Bool.false_eq_true, Bool.and_eq_true] at logical
        case amp =>
          have bitwise := (logical_bitwise (one logical.1 first) (two logical.2 second)).1
          cases applied
          rw [bitwise]
          exact zero_or_one _
        case pipe =>
          have bitwise := (logical_bitwise (one logical.1 first) (two logical.2 second)).2.1
          cases applied
          rw [bitwise]
          exact zero_or_one _
        case caret =>
          cases applied
          exact (logical_bitwise (one logical.1 first) (two logical.2 second)).2.2
        all_goals
          cases applied
          exact zero_or_one _
  | columnRef | unaryOp | functionCall => simp [Logical] at logical
  | nil => trivial
  | cons => trivial

/-- The first `n` results of a filter. -/
def placed (n : Nat) : Placement :=
  ⟨List.range' 2 (min n 15), if n ≤ 15 then none else some (n + 1)⟩

theorem placed_put (n : Nat) : (placed n).put 15 (n + 2) = placed (n + 1) := by
  obtain room | full := Nat.lt_or_ge n 15
  · simp [Placement.put, placed, room, room.le, Nat.succ_le_of_lt room,
      List.range'_1_concat, Nat.add_comm]
  · have kept : min n 15 = 15 ∧ min (n + 1) 15 = 15 := by omega
    simp [Placement.put, Placement.share, placed, kept, show ¬ n + 1 ≤ 15 by omega]

theorem readable_placed {n m : Nat} (older : m < n) (still : m < 15 ∨ m + 1 = n) :
    (placed n).Readable (m + 2) := by
  obtain kept | late := Nat.lt_or_ge m 15
  · exact .inl (by simp [placed]; omega)
  · refine .inr ?_
    simp [placed, show ¬ n ≤ 15 by omega]
    omega

section Sound

variable {event : CanonicalEvent} {values : Values} {instr : Instruction}
  {rest : List Instruction} {n : Nat}

theorem sound_cons (isDefinition : defines instr = true) (result : instr.result = n + 2)
    (here : ∀ id ∈ reads instr, (placed n).Readable id)
    (logical : Target.LogicalIsBitwise values instr)
    (goesOn : ∀ after, executeInstruction values instr event = .ok after →
      (target event).Sound [1] event rest (placed (n + 1)) after) :
    (target event).Sound [1] event (instr :: rest) (placed n) values := by
  have notReturn : instr.opcode ≠ .return_ := by
    intro code
    simp [defines, code] at isDefinition
  have place : (target event).place (placed n) instr = placed (n + 1) := by
    rw [← placed_put, ← result]
    exact if_pos isDefinition
  unfold Target.Sound
  rw [if_neg notReturn]
  refine ⟨fun _ => ⟨here, logical⟩, ?_⟩
  cases ran : executeInstruction values instr event with
  | error stop => trivial
  | ok after =>
    rw [place]
    exact goesOn after ran

theorem logicalIsBitwise_of (logical : instr.opcode = .and ∨ instr.opcode = .or →
    (∀ a, values (operand instr 0) = some a → a = 0 ∨ a = 1) ∧ ∀ b, values (operand instr 1) =
      some b → b = 0 ∨ b = 1) :
    Target.LogicalIsBitwise values instr := by
  unfold Target.LogicalIsBitwise
  split
  · next code first second =>
    obtain ⟨one, two⟩ := logical (.inl code)
    exact (logical_bitwise (one _ first) (two _ second)).1
  · next code first second =>
    obtain ⟨one, two⟩ := logical (.inr code)
    exact (logical_bitwise (one _ first) (two _ second)).2.1
  · trivial

theorem connective_of_binaryOpcode {op : TokenType} {type : IrType}
    (code : binaryOpcode op type = .and ∨ binaryOpcode op type = .or) : op = .and ∨ op = .or := by
  by_cases isSigned : type =
    .i64 <;> cases op <;> simp [binaryOpcode, Builder.byType, isSigned] at code ⊢

theorem hasWordOperation_binaryOpcode {op : TokenType} (type : IrType) (supported : op ≠ .percent) :
    hasWordOperation (binaryOpcode op type) = true := by
  by_cases isSigned : type = .i64 <;> cases op <;> simp [binaryOpcode, Builder.byType, isSigned,
    hasWordOperation] at supported ⊢

theorem sound_codeOf {e : Expression} (free : CallFree e) (supported : Supported e = true)
    (connected : Connected e = true)
    (fits : Fits n e = true)
    (goesOn : ∀ value after, evaluate event e = .ok value → after (n + under e + 2) = some value →
      (∀ id < n + 2, after id = values id) →
        (target event).Sound [1] event rest (placed (n + under e + 1)) after) :
    (target event).Sound [1] event (codeOf 1 (n + 2) e ++ rest) (placed n) values := by
  induction e using Expression.induction (Q := fun _ => True) generalizing n values rest with
  | literal word line column =>
    refine sound_cons rfl rfl (by simp [reads, Instruction.constOp, Constant.type])
      (logicalIsBitwise_of ?_) ?_
    · simp [Instruction.constOp, Constant.type]
    · intro after executed
      cases executed
      exact goesOn word _ rfl (if_pos rfl) fun id older => if_neg (Nat.ne_of_lt older)
  | columnRef name line column =>
    refine sound_cons rfl rfl (by simp [reads, Instruction.loadColumnOp])
      (logicalIsBitwise_of ?_) ?_
    · simp [Instruction.loadColumnOp]
    · intro after executed
      cases executed
      exact goesOn _ _ (by rw [evaluate, ← loadColumn_eq])
        (if_pos rfl) fun id older => if_neg (Nat.ne_of_lt older)
  | binaryOp op left right line column one two =>
    simp only [Supported, Connected, Fits, Bool.and_eq_true,
      decide_eq_true_eq] at supported connected fits
    have whole : n + under (.binaryOp op left right line column) =
        n + under left + 1 + under right + 1 := last_eq n _ _
    have ids : n + 2 + under left + 1 = n + under left + 1 + 2 ∧
        n + 2 + under left = n + under left + 2 ∧
        n + under left + 1 + 2 + under right = n + under left + 1 + under right + 2 ∧
        n + under left + 1 + under right + 2 + 1 =
          n + under left + 1 + under right + 1 + 2 := by omega
    simp only [codeOf, List.append_assoc, ids]
    refine one free.2.1 supported.1.2 connected.1.2 fits.1.2 fun a middle first hasLeft before => ?_
    refine two free.2.2 supported.2 connected.2 fits.2 fun b values' second hasRight between => ?_
    have stillLeft : values' (n + under left + 2) = some a := (between _ (by omega)).trans hasLeft
    have notRemainder : op ≠ .percent := by simpa using supported.1.1
    have operation := hasWordOperation_binaryOpcode (operandType left right) notRemainder
    have both : binaryOpcode op (operandType left right) = .and ∨
        binaryOpcode op (operandType left right) = .or →
        Logical left = true ∧ Logical right = true := by
      intro code
      rcases connective_of_binaryOpcode code with rfl | rfl <;> simpa using connected.1.1
    refine sound_cons (defines_of_hasWordOperation operation) rfl ?_
      (logicalIsBitwise_of fun code => ⟨?_, ?_⟩) ?_
    · rw [reads_binary operation]
      simp only [operand, List.getD_cons_zero, List.getD_cons_succ, List.mem_cons, List.not_mem_nil,
        or_false, forall_eq_or_imp, forall_eq]
      exact ⟨readable_placed (by omega) (.inl (by omega)), readable_placed (by omega) (.inr rfl)⟩
    · intro word found
      cases stillLeft.symm.trans found
      exact logical_value (both code).1 first
    · intro word found
      cases hasRight.symm.trans found
      exact logical_value (both code).2 second
    · intro after executed
      rw [execute_binary free.1 rfl stillLeft hasRight] at executed
      cases applied : applyBinary op (operandType left right) a b with
      | error stop =>
        rw [applied] at executed
        cases executed
      | ok value =>
        rw [applied] at executed
        cases executed
        rw [whole] at goesOn
        refine goesOn value _ ?_ (if_pos rfl) fun id older => ?_
        · simp [evaluate, first, second, applied, bind, Except.bind]
        · have other : id ≠ n + under left + 1 + under right + 1 + 2 := Nat.ne_of_lt (by omega)
          exact (if_neg other).trans ((between id (by omega)).trans (before id older))
  | unaryOp => simp [Supported] at supported
  | functionCall => exact free.elim
  | nil => trivial
  | cons => trivial

theorem sound_filter {e : Expression} (free : CallFree e) (supported : Supported e = true)
    (connected : Connected e = true)
    (fits : Fits 0 e = true) (values : Values) :
    (target event).Sound [1] event
      (codeOf 1 2 e ++ [.returnOp (2 + under e)]) Placement.empty values := by
  refine @sound_codeOf event values _ 0 e free supported connected fits fun value after _ _ _ => ?_
  have newest : (placed (under e + 1)).Readable (under e + 2) :=
    readable_placed (Nat.lt_succ_self _) (.inr rfl)
  have isReturn : (Instruction.returnOp (2 + under e)).opcode = .return_ := rfl
  unfold Target.Sound
  rw [if_pos isReturn]
  simpa [Instruction.returnOp, Nat.add_comm 2] using newest

end Sound

theorem run_emitted {function : Function} {instrs : List Instruction} {body : List UInt32}
    {next : Allocation A64Reg}
    (emitted : emitInstructions emitInstruction initial instrs = .ok (body, next))
    (ssa : Ssa function.parameters instrs)
    {event : CanonicalEvent} {value : UInt64} {after : Values}
    (executed : executeBlock event instrs (initialValues function) = .ok (.returned value, after))
    (sound : (target event).Sound function.parameters event instrs Placement.empty
      (initialValues function))
    (machine : A64State) (lies : LiesAt event machine.memory (machine.regs .x0))
    (apart : AddressSpace.Apart (machine.regs .x0) 56 (machine.regs .sp - 96) 96) :
    ∃ final, run (emitPrologue ++ body ++ emitEpilogue) machine = some (machine.regs .x30, final) ∧
      final.regs .x0 = value := by
  obtain ⟨entered, prologue, grown⟩ := does_prologue machine lies apart
  have ready : Target.Ready (target event) function.parameters Placement.empty initial
      (initialValues function)
      (demanded instrs) entered :=
    @Target.ready_initial _ _ _ (target event) entered function initial [] _ rfl
      (fun _ listed => absurd listed List.not_mem_nil) rfl
  obtain ⟨returned, kept, right, runs⟩ :=
    Target.emitInstructions_correct runOn Keeps Keeps.trans step_correct
    return_correct straight_of_emit emitted ready ssa
      (fun id _ => ⟨List.not_mem_nil, by simp [Placement.empty]⟩) sound executed
  obtain ⟨more, goesOn⟩ := runs emitEpilogue
  obtain ⟨final, finished, same⟩ := @run_epilogue returned.1 (machine.regs .sp) (machine.regs .x30)
    (kept.2.trans grown.top) (by rw [kept.1, grown.saved]) more
  refine ⟨final, ?_, same.trans right⟩
  rw [List.append_assoc, prologue]
  exact goesOn.trans finished

section Filters

variable {stmt : QueryStmt} {e : Expression} (noAggregate : NoAggregate stmt)
  (filter : stmt.whereExpr = some e)
  (free : CallFree e) (supported : Supported e = true) (connected : Connected e = true)
  (fits : Fits 0 e = true)
include noAggregate filter free supported connected fits

theorem run_filter {code : Bytes} (accepted : generate (Builder.buildFromQuery stmt) = .ok code)
    {event : CanonicalEvent}
    {value : UInt64} (evaluated : evaluate event e = .ok value) (machine : A64State)
    (lies : LiesAt event machine.memory (machine.regs .x0))
    (apart : AddressSpace.Apart (machine.regs .x0) 56 (machine.regs .sp - 96) 96) :
    ∃ final, run (Element.word32.getMany (code.length / 4) code) machine =
      some (machine.regs .x30, final) ∧
      final.regs .x0 = value := by
  have statement := lowerStatement_filter noAggregate filter
  have interpreted : execute (Builder.buildFromQuery stmt) 1 event = .ok value := by
    rw [execute_statement statement (parsed_callFree e free) Nat.one_pos,
      valueOf_callFree event e free, evaluated]
    rfl
  rw [buildFromQuery_codeOf statement free] at interpreted accepted
  cases emitted : emitInstructions emitInstruction initial
    (codeOf 1 2 e ++ [.returnOp (2 + under e)]) with
  | error stop => simp [generate, generateWords, emitted, bind, Except.bind] at accepted
  | ok made =>
    obtain ⟨body, next⟩ := made
    have bytes : code = Element.word32.putMany (emitPrologue ++ body ++ emitEpilogue) := by
      simp only [generate, generateWords, emitted, List.flatMap_cons, List.flatMap_nil,
        List.append_nil] at accepted
      exact (Except.ok.inj accepted).symm
    have straight : ∀ instr ∈ codeOf 1 2 e ++ [.returnOp (2 + under e)], instr.opcode ≠ .jump ∧
        instr.opcode ≠ .branch := by
      intro instr listed
      obtain ⟨g, made, one⟩ := Target.emitted_all emitted instr listed
      exact straight_of_emit one
    obtain ⟨after, executed⟩ := Target.execute_single rfl straight interpreted
    rw [bytes, words_of_bytes]
    exact run_emitted emitted (ssa_codeOf free) executed
      (sound_filter free supported connected fits _) machine lies apart

/-- A filter is compiled to code that computes it: on every event on which the filter has a value,
the code returns that value to its caller. -/
theorem compiled_filter : ∃ code, generate (Builder.buildFromQuery stmt) = .ok code ∧
    ∀ event value, evaluate event e = .ok value →
      ∀ machine : A64State, LiesAt event machine.memory (machine.regs .x0) →
      AddressSpace.Apart (machine.regs .x0) 56 (machine.regs .sp - 96) 96 →
      ∃ final, run (Element.word32.getMany (code.length / 4) code) machine =
        some (machine.regs .x30, final) ∧
        final.regs .x0 = value := by
  obtain ⟨code, accepted⟩ := generate_accepted noAggregate filter free supported
  refine ⟨code, accepted, fun event value evaluated machine lies apart => ?_⟩
  exact run_filter noAggregate filter free supported connected fits accepted
    evaluated machine lies apart

end Filters

/-- `price_ticks - 5 > 90 AND quantity == 10` -/
def quoteFilter : Expression :=
  .binaryOp .and
    (.binaryOp .greater
      (.binaryOp .minus (.columnRef (nameBytes "price_ticks") 1 1) (.literal 5 1 1) 1 1)
      (.literal 90 1 1) 1 1)
    (.binaryOp .equal (.columnRef (nameBytes "quantity") 1 1) (.literal 10 1 1) 1 1) 1 1

theorem compiled_filter_quote :
    ∃ code, generate (Builder.buildFromQuery ⟨[⟨none, [], true⟩], [], some quoteFilter, [], [],
      none, [], [], 0, 1, 1⟩) =
        .ok code ∧
      ∃ final, run (Element.word32.getMany (code.length / 4) code)
      (entryWith VectorExecutor.sampleQuote) = some (64, final) ∧
        final.regs .x0 = 1 := by
  have free : CallFree quoteFilter :=
    ⟨rfl, ⟨rfl, ⟨rfl, trivial, trivial⟩, trivial⟩, rfl, trivial, trivial⟩
  have evaluated : evaluate VectorExecutor.sampleQuote quoteFilter = .ok 1 := by decide
  obtain ⟨code, accepted, runs⟩ :=
    @compiled_filter ⟨[⟨none, [], true⟩], [], some quoteFilter, [], [], none, [], [], 0, 1, 1⟩
    quoteFilter rfl rfl free (by decide) (by decide) (by decide)
  obtain ⟨final, ran, right⟩ :=
    runs VectorExecutor.sampleQuote 1 evaluated (entryWith VectorExecutor.sampleQuote)
    (lies_entryWith _) (apart_entryWith _)
  exact ⟨code, accepted, final, ran, right⟩

end VectorTick.Jit.A64CodeGenerator
