import VectorTick.Execution.Calls

/-! Lowering preserves meaning: the code of an expression, run on an event, leaves the value of the
expression or stops with its error.

Code is appended to the current block and defines fresh ids only, so that running the code of one
operand keeps the value of the other. An expression without a value is lowered to id zero, which
nothing defines.
-/

set_option autoImplicit false

namespace VectorTick.Lowering

open Foundation Vts1 Query Ir Evaluation ReferenceInterpreter

/-- The instructions one after the other. -/
def runCode (event : CanonicalEvent) : List Instruction → Values → Except Stop Values
  | [], values => .ok values
  | instr :: rest, values => do
    let values ← executeInstruction values instr event
    runCode event rest values

theorem runCode_append (event : CanonicalEvent)
    (first second : List Instruction) (values : Values) :
    runCode event (first ++ second) values =
      runCode event first values >>= runCode event second := by
  induction first generalizing values with
  | nil => rfl
  | cons instr first ih =>
    rw [List.cons_append, runCode, runCode]
    cases executeInstruction values instr event with
    | error stop => rfl
    | ok next => exact ih next

/-- The instruction does not leave its block. -/
def Straight (instr : Instruction) : Prop :=
  instr.opcode ≠ .return_ ∧ instr.opcode ≠ .jump ∧ instr.opcode ≠ .branch

theorem executeBlock_straight {event : CanonicalEvent} {instr : Instruction}
    (straight : Straight instr)
    (rest : List Instruction) (values : Values) :
    executeBlock event (instr :: rest) values =
      executeInstruction values instr event >>= executeBlock event rest := by
  obtain ⟨returns, jumps, branches⟩ := straight
  rw [executeBlock]
  split
  · exact absurd ‹_› returns
  · exact absurd ‹_› jumps
  · exact absurd ‹_› branches
  · rfl

theorem executeBlock_code {event : CanonicalEvent} {code : List Instruction}
    (straight : ∀ instr ∈ code, Straight instr)
    (rest : List Instruction) (values : Values) :
    executeBlock event (code ++ rest) values =
      runCode event code values >>= executeBlock event rest := by
  induction code generalizing values with
  | nil => rfl
  | cons instr code ih =>
    rw [List.cons_append, executeBlock_straight (straight instr List.mem_cons_self), runCode]
    cases executeInstruction values instr event with
    | error stop => rfl
    | ok next => exact ih (fun later listed => straight later (List.mem_cons_of_mem _ listed)) next

/-- Run on any values without one for id zero, the code stops with the error of `outcome`, or
leaves its value stored and everything below `fresh` as it was. -/
def Leaves {α : Type} (event : CanonicalEvent) (code : List Instruction) (fresh : ValueId)
    (outcome : Except Stop α)
    (stored : α → Values → Prop) : Prop :=
  ∀ values : Values, values 0 = none → match outcome with
    | .error stop => runCode event code values = .error stop
    | .ok value => ∃ after, runCode event code values = .ok after ∧ stored value after ∧
        ∀ id < fresh, after id = values id

def holds (id : ValueId) (word : Option UInt64) (values : Values) : Prop := values id = word

section Leaves

variable {event : CanonicalEvent} {code : List Instruction} {fresh : ValueId}

theorem leaves_nil {α : Type} {value : α} {stored : α → Values → Prop}
    (ready : ∀ values : Values, values 0 = none → stored value values) :
    Leaves event [] fresh (.ok value) stored :=
  fun values zero => ⟨values, rfl, ready values zero, fun _ _ => rfl⟩

theorem Leaves.snoc {α : Type} {outcome : Except Stop α} {stored : α → Values → Prop}
    (first : Leaves event code fresh outcome stored) {instr : Instruction}
    {result : ValueId} (new : fresh ≤ result)
    {compute : α → Except Stop UInt64}
    (executes : ∀ values a, stored a values →
      executeInstruction values instr event = (compute a).map (setValue values result)) :
    Leaves event (code ++ [instr]) fresh (outcome >>= fun a => (compute a).map some)
    (holds result) := by
  intro values zero
  have run := first values zero
  cases outcome with
  | error stop =>
    change runCode event _ values = .error stop
    rw [runCode_append, show runCode event code values = .error stop from run]
    rfl
  | ok a =>
    obtain ⟨middle, reached, ready, kept⟩ := run
    have last := executes middle a ready
    have joined : runCode event (code ++ [instr]) values = runCode event [instr] middle := by
      rw [runCode_append, reached, ok_bind]
    rw [ok_bind]
    cases computed : compute a with
    | error stop =>
      rw [computed] at last
      change runCode event (code ++ [instr]) values = .error stop
      rw [joined, runCode, last]
      rfl
    | ok value =>
      rw [computed] at last
      refine ⟨setValue middle result value, ?_, if_pos rfl, fun id below => ?_⟩
      · rw [joined, runCode, last]
        rfl
      · rw [setValue, if_neg (Nat.ne_of_lt (Nat.lt_of_lt_of_le below new)), kept id below]

theorem Leaves.pair {first second : Except Stop (Option UInt64)} {left right middle : ValueId}
    {code' : List Instruction}
    (one : Leaves event code fresh first (holds left))
    (two : Leaves event code' middle second (holds right))
    (positive : 0 < fresh) (below : left < middle) (later : fresh ≤ middle) :
    Leaves event (code ++ code') fresh (do let a ← first; let b ← second; return (a, b))
      fun words values => holds left words.1 values ∧ holds right words.2 values := by
  intro values zero
  have run := one values zero
  cases first with
  | error stop =>
    change runCode event _ values = .error stop
    rw [runCode_append, show runCode event code values = .error stop from run]
    rfl
  | ok a =>
    obtain ⟨between, reached, stored, kept⟩ := run
    have run' := two between ((kept 0 positive).trans zero)
    have joined : runCode event (code ++ code') values = runCode event code' between := by
      rw [runCode_append, reached, ok_bind]
    rw [ok_bind]
    cases second with
    | error stop => exact joined.trans run'
    | ok b =>
      obtain ⟨after, reached', stored', kept'⟩ := run'
      refine ⟨after, joined.trans reached', ⟨?_, stored'⟩, fun id less => ?_⟩
      · exact (kept' left below).trans stored
      · rw [kept' id (Nat.lt_of_lt_of_le less later), kept id less]

theorem Leaves.dropped {outcome : Except Stop (Option UInt64)} {result : ValueId}
    (first : Leaves event code fresh outcome (holds result)) (positive : 0 < fresh) :
    Leaves event code fresh (outcome >>= fun _ => .ok none) (holds 0) := by
  intro values zero
  have run := first values zero
  cases outcome with
  | error stop => exact run
  | ok word =>
    obtain ⟨after, reached, _, kept⟩ := run
    exact ⟨after, reached, (kept 0 positive).trans zero, kept⟩

end Leaves

/-- The builder with code appended to its block. -/
def extend (builder : Builder) (code : List Instruction) (next : ValueId) : Builder :=
  { builder with function := { builder.function with
      blocks := builder.function.blocks.modify builder.currentBlock fun block =>
        ⟨block.instructions ++ code⟩
      nextValueId := next } }

theorem extend_extend (builder : Builder) (first second : List Instruction)
    (middle next : ValueId) :
    extend (extend builder first middle) second next = extend builder (first ++ second) next := by
  unfold extend
  simp only [List.modify_modify_eq, Function.comp_def, List.append_assoc]

theorem define_eq (instruction : ValueId → Instruction) (builder : Builder) :
    Builder.define instruction builder = (builder.function.nextValueId,
      extend builder [instruction builder.function.nextValueId]
      (builder.function.nextValueId + 1)) := rfl

/-- What lowering does to a builder, and what the code it appends means. -/
structure Lowers (lower : Builder.Build ValueId)
    (meaning : CanonicalEvent → Except Stop (Option UInt64))
    (builder : Builder) (code : List Instruction) (result next : ValueId) : Prop where
  lowered : lower builder = (result, extend builder code next)
  straight : ∀ instr ∈ code, Straight instr
  below : result < next
  later : builder.function.nextValueId ≤ next
  leaves : ∀ event, Leaves event code builder.function.nextValueId (meaning event) (holds result)
  -- Id zero stands for no value, and nothing else does.
  defined : ∀ event word, meaning event = .ok word → (result = 0 ↔ word = none)

theorem straight_snoc {code : List Instruction}
    (front : ∀ instr ∈ code, Straight instr) {last : Instruction}
    (straight : Straight last) : ∀ instr ∈ code ++ [last], Straight instr := by
  intro instr listed
  rcases List.mem_append.mp listed with old | new
  · exact front instr old
  · rw [List.mem_singleton.mp new]
    exact straight

theorem defined_some {α : Type} {result : ValueId} (positive : 0 < result) {outcome : Except Stop α}
    {compute : α → Except Stop UInt64} {word : Option UInt64}
    (computed : (outcome >>= fun a => (compute a).map some) = .ok word) :
    result = 0 ↔ word = none := by
  have value : word ≠ none := by
    intro none
    subst none
    cases outcome with
    | error stop => cases computed
    | ok a =>
      rw [ok_bind] at computed
      cases stored : compute a with
      | error stop =>
        rw [stored] at computed
        cases computed
      | ok value =>
        rw [stored] at computed
        cases computed
  exact ⟨fun zero => absurd zero positive.ne', fun none => absurd none value⟩

section Lowers

variable {builder : Builder} (positive : 0 < builder.function.nextValueId)
include positive

theorem Lowers.leaf {instruction : ValueId → Instruction}
    {compute : CanonicalEvent → Except Stop UInt64}
    (straight : ∀ result, Straight (instruction result))
    (executes : ∀ event values result, executeInstruction values (instruction result) event =
      (compute event).map (setValue values result)) :
    Lowers (Builder.define instruction) (fun event => (compute event).map some) builder
      [instruction builder.function.nextValueId] builder.function.nextValueId
        (builder.function.nextValueId + 1) where
  lowered := define_eq instruction builder
  straight := straight_snoc (fun _ listed => absurd listed List.not_mem_nil) (straight _)
  below := Nat.lt_succ_self _
  later := Nat.le_succ _
  leaves event := @Leaves.snoc event [] builder.function.nextValueId Unit (.ok ()) (fun _ _ => True)
    (leaves_nil fun _ _ => trivial) _ _ (Nat.le_refl _)
      (fun _ => compute event) fun values _ _ => executes event values _
  defined event word := @defined_some Unit _ positive (.ok ()) (fun _ => compute event) word

theorem Lowers.unary {lower : Builder.Build ValueId}
    {meaning : CanonicalEvent → Except Stop (Option UInt64)}
    {code : List Instruction} {operand next : ValueId}
    (first : Lowers lower meaning builder code operand next)
    {instruction : ValueId → ValueId → Instruction} {compute : Option UInt64 → Except Stop UInt64}
    (straight : Straight (instruction operand next))
    (executes : ∀ event values a, holds operand a values →
      executeInstruction values (instruction operand next) event =
        (compute a).map (setValue values next)) :
    Lowers (do let value ← lower; Builder.define (instruction value))
      (fun event => meaning event >>= fun a => (compute a).map some) builder
      (code ++ [instruction operand next]) next (next + 1) where
  lowered := by
    change Builder.define (instruction (lower builder).1) (lower builder).2 = _
    rw [first.lowered, define_eq]
    change (next, extend (extend builder code next) [instruction operand next] (next + 1)) = _
    rw [extend_extend]
  straight := straight_snoc first.straight straight
  below := Nat.lt_succ_self _
  later := first.later.trans (Nat.le_succ _)
  leaves event := (first.leaves event).snoc first.later (executes event)
  defined event word := defined_some (positive.trans_le first.later)

theorem Lowers.binary {lowerLeft lowerRight : Builder.Build ValueId}
    {meaningLeft meaningRight : CanonicalEvent → Except Stop (Option UInt64)}
    {codeLeft codeRight : List Instruction} {left right middle next : ValueId}
    (first : Lowers lowerLeft meaningLeft builder codeLeft left middle)
    (second : Lowers lowerRight meaningRight (extend builder codeLeft middle) codeRight right next)
    {instruction : ValueId → ValueId → ValueId → Instruction}
    {compute : Option UInt64 → Option UInt64 → Except Stop UInt64}
    (straight : Straight (instruction left right next))
    (executes : ∀ event values a b, holds left a values → holds right b values →
      executeInstruction values (instruction left right next) event =
        (compute a b).map (setValue values next)) :
    Lowers (do let lhs ← lowerLeft; let rhs ← lowerRight; Builder.define (instruction lhs rhs))
      (fun event => do let a ← meaningLeft event; let b ← meaningRight event; (compute a b).map some) builder
      (codeLeft ++ codeRight ++ [instruction left right next]) next (next + 1) := by
  have meaning : ∀ event,
      (do let a ← meaningLeft event; let b ← meaningRight event; (compute a b).map some) =
      (do let a ← meaningLeft event; let b ← meaningRight event; return (a, b)) >>= fun words =>
        (compute words.1 words.2).map some := by
    intro event
    cases meaningLeft event with
    | error stop => rfl
    | ok a => cases meaningRight event <;> rfl
  refine {
    lowered := ?_
    straight := straight_snoc (fun instr listed => ?_) straight
    below := Nat.lt_succ_self _
    later := (first.later.trans second.later).trans (Nat.le_succ _)
    leaves := fun event => ?_
    defined := fun event word computed => ?_ }
  · change Builder.define (instruction (lowerLeft builder).1 (lowerRight (lowerLeft builder).2).1)
      (lowerRight (lowerLeft builder).2).2 = _
    rw [first.lowered, second.lowered, define_eq, extend_extend]
    change (next, extend (extend builder (codeLeft ++ codeRight) next)
      [instruction left right next] (next + 1)) = _
    rw [extend_extend]
  · rcases List.mem_append.mp listed with old | new
    · exact first.straight instr old
    · exact second.straight instr new
  · have both := (first.leaves event).pair (second.leaves event) positive first.below first.later
    rw [meaning]
    exact both.snoc (first.later.trans second.later) fun values words ready =>
      executes event values words.1 words.2 ready.1 ready.2
  · rw [meaning] at computed
    exact defined_some (positive.trans_le (first.later.trans second.later)) computed

theorem Lowers.dropped {lower : Builder.Build ValueId}
    {meaning : CanonicalEvent → Except Stop (Option UInt64)}
    {code : List Instruction} {result next : ValueId}
    (first : Lowers lower meaning builder code result next) :
    Lowers (do let _ ← lower; pure 0)
    (fun event => meaning event >>= fun _ => .ok none) builder code 0 next where
  lowered := by
    change ((0, (lower builder).2) : ValueId × Builder) = _
    rw [first.lowered]
  straight := first.straight
  below := positive.trans_le first.later
  later := first.later
  leaves event := (first.leaves event).dropped positive
  defined event word computed := by
    cases operand : meaning event with
    | error stop =>
      rw [operand] at computed
      cases computed
    | ok value =>
      rw [operand] at computed
      cases computed
      exact iff_of_true rfl rfl

theorem Lowers.nothing : Lowers (pure 0)
    (fun _ => .ok none) builder [] 0 builder.function.nextValueId where
  lowered := by
    have same : (fun block : BasicBlock => (⟨block.instructions ++ []⟩ : BasicBlock)) = id :=
      funext fun block => by rw [List.append_nil]; rfl
    change ((0, builder) : ValueId × Builder) = _
    rw [extend, same, List.modify_id]
  straight := fun _ listed => absurd listed List.not_mem_nil
  below := positive
  later := Nat.le_refl _
  leaves event := leaves_nil fun _ zero => zero
  defined event word computed := by
    cases computed
    exact iff_of_true rfl rfl

end Lowers

theorem lowerBinary_eq {op : TokenType} (known : isBinaryOperator op = true) (type : IrType) :
    ∃ resultType, ∀ lhs rhs, Builder.lowerBinary op lhs rhs type =
      Builder.define fun result =>
        ⟨binaryOpcode op type, [lhs, rhs], result, resultType, .none⟩ := by
  cases op
  case plus => exact ⟨type, fun _ _ => rfl⟩
  case minus => exact ⟨type, fun _ _ => rfl⟩
  case star => exact ⟨type, fun _ _ => rfl⟩
  case slash => exact ⟨type, fun _ _ => rfl⟩
  case percent => exact ⟨type, fun _ _ => rfl⟩
  case equal => exact ⟨.i1, fun _ _ => rfl⟩
  case notEqual => exact ⟨.i1, fun _ _ => rfl⟩
  case less => exact ⟨.i1, fun _ _ => rfl⟩
  case lessEqual => exact ⟨.i1, fun _ _ => rfl⟩
  case greater => exact ⟨.i1, fun _ _ => rfl⟩
  case greaterEqual => exact ⟨.i1, fun _ _ => rfl⟩
  case and => exact ⟨.i1, fun _ _ => rfl⟩
  case or => exact ⟨.i1, fun _ _ => rfl⟩
  case amp => exact ⟨.u64, fun _ _ => rfl⟩
  case pipe => exact ⟨.u64, fun _ _ => rfl⟩
  case caret => exact ⟨.u64, fun _ _ => rfl⟩
  all_goals cases known

theorem lowerUnary_eq {op : TokenType} (known : isUnaryOperator op = true) :
    ∃ resultType, ∀ operand, Builder.lowerUnary op operand =
      Builder.define fun result => ⟨unaryOpcode op, [operand], result, resultType, .none⟩ := by
  cases op
  case minus => exact ⟨.i64, fun _ => rfl⟩
  case bang => exact ⟨.i1, fun _ => rfl⟩
  all_goals cases known

theorem straight_binary {op : TokenType} (known : isBinaryOperator op = true)
    {type : IrType} {instr : Instruction}
    (code : instr.opcode = binaryOpcode op type) : Straight instr := by
  unfold Straight
  rw [code]
  unfold binaryOpcode Builder.byType
  by_cases isSigned : type = .i64
  · simp only [isSigned, if_true]
    cases op <;> simp
  · simp only [isSigned, if_false]
    cases op <;> simp

theorem straight_unary (op : TokenType) {instr : Instruction}
    (code : instr.opcode = unaryOpcode op) : Straight instr := by
  unfold Straight
  rw [code, unaryOpcode]
  split <;> simp

theorem straight_aggregate {instr : Instruction} (aggregate : instr.opcode.isAggregate = true) :
    Straight instr := by
  unfold Straight
  cases op : instr.opcode <;> rw [op] at aggregate <;> first | (cases aggregate; done) | simp

theorem isAggregate_byType (type : IrType) {signedCode unsignedCode : Opcode}
    (one : signedCode.isAggregate = true)
    (two : unsignedCode.isAggregate = true) :
    (Builder.byType type signedCode unsignedCode).isAggregate = true := by
  unfold Builder.byType
  by_cases isSigned : type = .i64
  · rwa [if_pos isSigned]
  · rwa [if_neg isSigned]

theorem createAggregate_eq {fname : Bytes} (aggregate : isAggregate fname) (type : IrType) :
    ∃ op : Opcode, op.isAggregate = true ∧ ∀ arg, Builder.createAggregate fname arg type =
      Builder.define (.aggregateOp op arg · type) := by
  unfold Builder.createAggregate
  by_cases sum : fname = nameBytes "sum"
  · exact ⟨_, isAggregate_byType type rfl rfl, fun arg => by rw [if_pos sum]; rfl⟩
  by_cases min : fname = nameBytes "min"
  · exact ⟨_, isAggregate_byType type rfl rfl, fun arg => by rw [if_neg sum, if_pos min]; rfl⟩
  · have max := (aggregate.resolve_left sum).resolve_left min
    exact ⟨_, isAggregate_byType type rfl rfl,
      fun arg => by rw [if_neg sum, if_neg min, if_pos max]; rfl⟩

theorem createAggregate_other {fname : Bytes} (other : ¬ isAggregate fname)
    (arg : ValueId) (type : IrType) :
    Builder.createAggregate fname arg type = pure 0 := by
  unfold isAggregate at other
  rw [not_or, not_or] at other
  unfold Builder.createAggregate
  rw [if_neg other.1, if_neg other.2.1, if_neg other.2.2]

mutual

theorem lowerExpression_lowers : (e : Expression) → Parsed e → (builder : Builder) →
    0 < builder.function.nextValueId →
    ∃ code result next, Lowers (Builder.lowerExpression e)
    (fun event => valueOf event e) builder code result next
  | .literal value _ _, _, builder, positive =>
    ⟨_, _, _, @Lowers.leaf builder positive _ (fun _ => .ok value)
      (fun _ => by simp [Straight, Instruction.constOp, Constant.type]) fun _ _ _ => rfl⟩
  | .columnRef name _ _, _, builder, positive => by
    have loads := @Lowers.leaf builder positive
      (fun result =>
        .loadColumnOp (Builder.columnInfo name).1 (builder.function.parameters.headD 0) result
        (Builder.columnInfo
          name).2) (fun event => .ok (loadColumnValue (Builder.columnInfo name).1 event))
      (fun _ => by simp [Straight, Instruction.loadColumnOp]) fun _ _ _ => rfl
    refine ⟨_, _, _, { loads with lowered := ?_, leaves := ?_, defined := ?_ }⟩
    · rw [Builder.lowerExpression]
      exact loads.lowered
    · intro event
      have leaves := loads.leaves event
      rwa [loadColumn_eq] at leaves
    · intro event word loaded
      refine loads.defined event word ?_
      rwa [loadColumn_eq]
  | .binaryOp op left right _ _, parsed, builder, positive => by
    obtain ⟨known, parsedLeft, parsedRight⟩ := parsed
    obtain ⟨codeLeft, l, middle, first⟩ := lowerExpression_lowers left parsedLeft builder positive
    obtain ⟨codeRight, r, next, second⟩ :=
      lowerExpression_lowers right parsedRight (extend builder codeLeft middle)
        (positive.trans_le first.later)
    obtain ⟨resultType, lowered⟩ := lowerBinary_eq known (operandType left right)
    have whole := @Lowers.binary _ positive _ _ _ _ _ _ _ _ _ _ first second
      (fun lhs rhs result => ⟨binaryOpcode op (operandType left right),
        [lhs, rhs], result, resultType, .none⟩)
      (combineBinary op (operandType left right)) (straight_binary known rfl)
      fun event values a b one two => execute_combineBinary known rfl one two
    refine ⟨_, _, _, { whole with lowered := ?_ }⟩
    rw [← whole.lowered, Builder.lowerExpression]
    change (Builder.lowerExpression left >>= fun lhs => Builder.lowerExpression right >>= fun rhs =>
      Builder.lowerBinary op lhs rhs (operandType left right)) builder = _
    simp only [lowered]
  | .unaryOp op operand _ _, parsed, builder, positive => by
    obtain ⟨known, parsedOperand⟩ := parsed
    obtain ⟨code, result, next, first⟩ :=
      lowerExpression_lowers operand parsedOperand builder positive
    obtain ⟨resultType, lowered⟩ := lowerUnary_eq known
    have whole := @Lowers.unary _ positive _ _ _ _ _ first
      (fun value result => ⟨unaryOpcode op, [value], result, resultType, .none⟩)
        (combineUnary op) (straight_unary op rfl)
      fun event values a one => execute_combineUnary known rfl one
    refine ⟨_, _, _, { whole with lowered := ?_ }⟩
    rw [← whole.lowered, Builder.lowerExpression]
    simp only [lowered]
  | .functionCall name args _ _, parsed, builder, positive => by
    by_cases count : name.map toLower = nameBytes "count"
    · have counts := @Lowers.leaf builder positive
        (fun result => .aggregateOp .count (builder.function.parameters.headD 0) result .u64)
          (fun _ => unsupported)
        (fun _ => straight_aggregate rfl) fun _ _ _ => execute_aggregate rfl
      refine ⟨_, _, _, { counts with lowered := ?_, leaves := ?_, defined := ?_ }⟩
      · rw [Builder.lowerExpression, if_pos count]
        exact counts.lowered
      · intro event
        rw [valueOf, if_pos count]
        exact counts.leaves event
      · intro event word computed
        rw [valueOf, if_pos count] at computed
        cases computed
    · obtain ⟨code, result, next, lowers⟩ :=
        lowerArgument_lowers (name.map toLower) args parsed builder positive
      refine ⟨code, result, next, { lowers with lowered := ?_, leaves := ?_, defined := ?_ }⟩
      · rw [Builder.lowerExpression, if_neg count, lowers.lowered]
      · intro event
        rw [valueOf, if_neg count]
        exact lowers.leaves event
      · intro event word computed
        rw [valueOf, if_neg count] at computed
        exact lowers.defined event word computed

theorem lowerArgument_lowers (fname : Bytes) : (args : List Expression) →
    AllParsed args → (builder : Builder) →
    0 < builder.function.nextValueId → ∃ code result next,
      Lowers (Builder.lowerArgument fname args)
      (fun event => valueOfCall event fname args) builder code result next
  | [], _, builder, positive => ⟨_, _, _, Lowers.nothing positive⟩
  | arg :: _, parsed, builder, positive => by
    obtain ⟨code, result, next, first⟩ := lowerExpression_lowers arg parsed.1 builder positive
    by_cases aggregate : isAggregate fname
    · obtain ⟨op, isAggregateOp, lowered⟩ := createAggregate_eq aggregate (Builder.inferType arg)
      have whole := @Lowers.unary _ positive _ _ _ _ _ first
        (fun value result => .aggregateOp op value result (Builder.inferType arg))
          (fun _ => unsupported)
        (straight_aggregate isAggregateOp) fun event values a one => execute_aggregate isAggregateOp
      refine ⟨_, _, _, { whole with lowered := ?_, leaves := ?_, defined := ?_ }⟩
      · rw [← whole.lowered, Builder.lowerArgument]
        simp only [lowered]
      · intro event
        rw [valueOfCall, if_pos aggregate]
        exact whole.leaves event
      · intro event word computed
        rw [valueOfCall, if_pos aggregate] at computed
        exact whole.defined event word computed
    · have whole := first.dropped positive
      refine ⟨_, _, _, { whole with lowered := ?_, leaves := ?_, defined := ?_ }⟩
      · rw [← whole.lowered, Builder.lowerArgument]
        simp only [createAggregate_other aggregate]
      · intro event
        rw [valueOfCall, if_neg aggregate]
        exact whole.leaves event
      · intro event word computed
        rw [valueOfCall, if_neg aggregate] at computed
        exact whole.defined event word computed

end

/-- A statement without an aggregate call, neither in `AGG` nor as a projection. -/
def NoAggregate (stmt : QueryStmt) : Prop := Builder.aggregateCall stmt = none

/-- The builder before the statement is lowered: an empty entry block, and the row index. -/
def entered : Builder := ⟨⟨[⟨[]⟩], [1], 2⟩, 0⟩

theorem buildFromQuery_returns {stmt : QueryStmt} {e : Expression}
    (statement : Builder.lowerStatement stmt = Builder.lowerExpression e >>= Builder.createReturn)
    {meaning : CanonicalEvent → Except Stop (Option UInt64)} {code : List Instruction}
    {result next : ValueId}
    (lowers : Lowers (Builder.lowerExpression e) meaning entered code result next) :
    Builder.buildFromQuery stmt = ⟨[⟨code ++ [.returnOp result]⟩], [1], next⟩ := by
  change (Builder.lowerStatement stmt entered).2.function = _
  rw [statement]
  change (Builder.createReturn (Builder.lowerExpression e entered).1
    (Builder.lowerExpression e entered).2).2.function = _
  rw [lowers.lowered]
  rfl

/-- Executing what a statement is lowered to gives the value or the error of the expression it
returns, and zero where that has no value. -/
theorem execute_statement {stmt : QueryStmt} {e : Expression}
    (statement : Builder.lowerStatement stmt = Builder.lowerExpression e >>= Builder.createReturn)
    (parsed : Parsed e)
    {fuel : Nat} (enough : 0 < fuel) (event : CanonicalEvent) :
    execute (Builder.buildFromQuery stmt) fuel event =
      (valueOf event e).map fun word => word.getD 0 := by
  obtain ⟨code, result, next, lowers⟩ := lowerExpression_lowers e parsed entered Nat.two_pos
  obtain ⟨fuel, rfl⟩ := Nat.exists_eq_succ_of_ne_zero (Nat.ne_of_gt enough)
  rw [buildFromQuery_returns statement lowers]
  unfold execute executeBlocks
  generalize initial : initialValues _ = values
  have zero : values 0 = none := by
    rw [← initial]
    rfl
  change (executeBlock event (code ++ [.returnOp result]) values >>= fun out => _) = _
  rw [executeBlock_code lowers.straight]
  have run := lowers.leaves event values zero
  cases outcome : valueOf event e with
  | error stop =>
    rw [outcome] at run
    rw [show runCode event code values = .error stop from run]
    rfl
  | ok word =>
    rw [outcome] at run
    obtain ⟨after, reached, stored, _⟩ := run
    have defined := lowers.defined event word outcome
    have returns : executeBlock event [.returnOp result] after =
        .ok (.returned (word.getD 0), after) := by
      unfold Instruction.returnOp executeBlock
      by_cases none : result = 0
      · rw [if_neg (not_not.mpr none), defined.mp none]
        rfl
      · obtain ⟨value, isValue⟩ :=
          Option.ne_none_iff_exists'.mp fun missing => none (defined.mpr missing)
        rw [if_pos none]
        dsimp only
        rw [show after result = word from stored, isValue]
        rfl
    rw [reached, ok_bind, returns]
    rfl

theorem lowerStatement_filter {stmt : QueryStmt} {e : Expression} (noAggregate : NoAggregate stmt)
    (filter : stmt.whereExpr = some e) :
    Builder.lowerStatement stmt = Builder.lowerExpression e >>= Builder.createReturn := by
  unfold Builder.lowerStatement
  rw [show Builder.aggregateCall stmt = none from noAggregate, filter]

/-- Executing what a filter is lowered to gives the value or the error of the filter. -/
theorem lowering_preserves_meaning {stmt : QueryStmt} {e : Expression}
    (noAggregate : NoAggregate stmt)
    (filter : stmt.whereExpr = some e) (free : CallFree e) {fuel : Nat} (enough : 0 < fuel)
    (event : CanonicalEvent) :
    execute (Builder.buildFromQuery stmt) fuel event = evaluate event e := by
  rw [execute_statement (lowerStatement_filter noAggregate filter) (parsed_callFree e free) enough,
    valueOf_callFree event e free]
  cases evaluate event e <;> rfl

/-- `price_ticks - 5 > 90` on a quote at 100. -/
theorem lowering_preserves_meaning_difference :
    let e : Expression := .binaryOp .greater
      (.binaryOp .minus (.columnRef (nameBytes "price_ticks") 1 1) (.literal 5 1 1) 1 1)
        (.literal 90 1 1) 1 1
    execute (Builder.buildFromQuery ⟨[⟨none, [], true⟩], [], some e, [], [],
      none, [], [], 0, 1, 1⟩) 1
      VectorExecutor.sampleQuote = .ok 1 := by
  intro e
  have value : evaluate VectorExecutor.sampleQuote e = .ok 1 := by decide
  have meaning := @lowering_preserves_meaning
    ⟨[⟨none, [], true⟩], [], some e, [], [], none, [], [], 0, 1, 1⟩ e rfl rfl
    ⟨rfl, ⟨rfl, trivial, trivial⟩, trivial⟩ 1 Nat.one_pos VectorExecutor.sampleQuote
  rw [meaning, value]

end VectorTick.Lowering
