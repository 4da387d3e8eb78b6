import VectorTick.Query.Soundness

/-! The columns a checked query mentions, and those that are loaded for it.

The check visits the projections, the filter and the two lists of names. What it does not visit may
name anything, and the builder loads column zero for a name it does not know.
-/

set_option autoImplicit false

namespace VectorTick.Ir

open Foundation Vts1 Query

mutual

/-- The columns an expression refers to, from left to right. -/
def columnRefs : Expression → List Bytes
  | .literal _ _ _ => []
  | .columnRef name _ _ => [name]
  | .binaryOp _ left right _ _ => columnRefs left ++ columnRefs right
  | .unaryOp _ operand _ _ => columnRefs operand
  | .functionCall _ args _ _ => argumentRefs args

def argumentRefs : List Expression → List Bytes
  | [] => []
  | arg :: rest => columnRefs arg ++ argumentRefs rest

end

def Known (name : Bytes) : Prop := (TypeChecker.resolveColumn name).isSome = true

instance (name : Bytes) : Decidable (Known name) := inferInstanceAs (Decidable (_ = true))

/-- Every column a statement names, anywhere. -/
def mentioned (stmt : QueryStmt) : List Bytes :=
  (Parser.expressions stmt).flatMap columnRefs ++ stmt.groupByColumns ++ stmt.orderBy.map Prod.fst

/-- The expressions of the clauses that the check does not visit. -/
def unvisited (stmt : QueryStmt) : List Expression :=
  stmt.letBindings.filterMap Prod.snd ++ stmt.tumbleWindow.toList ++ stmt.aggregations.map Prod.snd

theorem ok_bind_iff {ε α β : Type} {first : Except ε α} {next : α → Except ε β} {value : β} :
    (first >>= next) = .ok value ↔ ∃ middle, first = .ok middle ∧ next middle = .ok value := by
  cases first with
  | error stop => exact iff_of_false (fun same => (nomatch same)) fun ⟨_, same, _⟩ => (nomatch same)
  | ok middle =>
    constructor
    · exact fun same => ⟨middle, rfl, same⟩
    · rintro ⟨other, same, rest⟩
      cases same
      exact rest

mutual

theorem checkExpression_ok_iff : (e : Expression) →
    ((∃ type, TypeChecker.checkExpression e = .ok type) ↔ ∀ name ∈ columnRefs e, Known name)
  | .literal _ _ _ => iff_of_true ⟨_, rfl⟩ fun _ listed => absurd listed List.not_mem_nil
  | .columnRef name _ _ => by
    rw [columnRefs, List.forall_mem_singleton, TypeChecker.checkExpression, Known]
    cases TypeChecker.resolveColumn name with
    | none => exact iff_of_false (fun ⟨_, same⟩ => (nomatch same)) Bool.false_ne_true
    | some column => exact iff_of_true ⟨_, rfl⟩ rfl
  | .binaryOp op left right _ _ => by
    rw [columnRefs, List.forall_mem_append, ← checkExpression_ok_iff left,
      ← checkExpression_ok_iff right, TypeChecker.checkExpression]
    constructor
    · rintro ⟨type, checked⟩
      obtain ⟨one, first, rest⟩ := ok_bind_iff.mp checked
      obtain ⟨two, second, _⟩ := ok_bind_iff.mp rest
      exact ⟨⟨one, first⟩, ⟨two, second⟩⟩
    · rintro ⟨⟨one, first⟩, ⟨two, second⟩⟩
      exact ⟨_, ok_bind_iff.mpr ⟨one, first, ok_bind_iff.mpr ⟨two, second, rfl⟩⟩⟩
  | .unaryOp op operand _ _ => by
    rw [columnRefs, ← checkExpression_ok_iff operand, TypeChecker.checkExpression]
    constructor
    · rintro ⟨type, checked⟩
      obtain ⟨one, first, _⟩ := ok_bind_iff.mp checked
      exact ⟨one, first⟩
    · rintro ⟨one, first⟩
      exact ⟨_, ok_bind_iff.mpr ⟨one, first, rfl⟩⟩
  | .functionCall name args _ _ => by
    rw [columnRefs, ← checkArguments_ok_iff args, TypeChecker.checkExpression]
    constructor
    · rintro ⟨type, checked⟩
      obtain ⟨types, all, _⟩ := ok_bind_iff.mp checked
      exact ⟨types, all⟩
    · rintro ⟨types, all⟩
      exact ⟨_, ok_bind_iff.mpr ⟨types, all, rfl⟩⟩

theorem checkArguments_ok_iff : (args : List Expression) →
    ((∃ types, TypeChecker.checkArguments args = .ok types) ↔
      ∀ name ∈ argumentRefs args, Known name)
  | [] => iff_of_true ⟨_, rfl⟩ fun _ listed => absurd listed List.not_mem_nil
  | arg :: rest => by
    rw [argumentRefs, List.forall_mem_append, ← checkExpression_ok_iff arg,
      ← checkArguments_ok_iff rest, TypeChecker.checkArguments]
    constructor
    · rintro ⟨types, checked⟩
      obtain ⟨one, first, more⟩ := ok_bind_iff.mp checked
      obtain ⟨two, second, _⟩ := ok_bind_iff.mp more
      exact ⟨⟨one, first⟩, ⟨two, second⟩⟩
    · rintro ⟨⟨one, first⟩, ⟨two, second⟩⟩
      exact ⟨_, ok_bind_iff.mpr ⟨one, first, ok_bind_iff.mpr ⟨two, second, rfl⟩⟩⟩

end

theorem checkColumns_ok_iff (message : String) (names : List Bytes) :
    TypeChecker.checkColumns message names = .ok () ↔ ∀ name ∈ names, Known name := by
  induction names with
  | nil => exact iff_of_true rfl fun _ listed => absurd listed List.not_mem_nil
  | cons name rest ih =>
    rw [List.forall_mem_cons, ← ih, TypeChecker.checkColumns, Known]
    cases TypeChecker.resolveColumn name with
    | none => exact iff_of_false (fun same => (nomatch same)) fun both => Bool.false_ne_true both.1
    | some column => exact (and_iff_right rfl).symm

theorem checkProjections_cons (item : SelectItem) (rest : List SelectItem)
    (wild : item.isWildcard = true → item.expr = none) :
    TypeChecker.checkProjections (item :: rest) = match item.expr with
      | none => TypeChecker.checkProjections rest
      | some e => TypeChecker.checkExpression e >>= fun _ => TypeChecker.checkProjections rest := by
  rw [TypeChecker.checkProjections]
  cases wildcard : item.isWildcard with
  | true =>
    rw [wild wildcard]
    rfl
  | false => cases item.expr <;> rfl

theorem checkProjections_ok_iff {items : List SelectItem}
    (wild : ∀ item ∈ items, item.isWildcard = true → item.expr = none) :
    TypeChecker.checkProjections items = .ok () ↔
      ∀ name ∈ (items.filterMap SelectItem.expr).flatMap columnRefs, Known name := by
  induction items with
  | nil => exact iff_of_true rfl fun _ listed => absurd listed List.not_mem_nil
  | cons item rest ih =>
    have others := ih fun other listed => wild other (List.mem_cons_of_mem _ listed)
    rw [checkProjections_cons item rest (wild item List.mem_cons_self), List.filterMap_cons]
    cases item.expr with
    | none => exact others
    | some e =>
      dsimp only
      rw [List.flatMap_cons, List.forall_mem_append, ← others,
        ← checkExpression_ok_iff e, ok_bind_iff]
      constructor
      · rintro ⟨type, checked, more⟩
        exact ⟨⟨type, checked⟩, more⟩
      · rintro ⟨⟨type, checked⟩, more⟩
        exact ⟨type, checked, more⟩

theorem checkQuery_ok_iff {stmt : QueryStmt}
    (wild : ∀ item ∈ stmt.projections, item.isWildcard = true → item.expr = none) :
    TypeChecker.checkQuery stmt = .ok () ↔
      (∀ name ∈ (stmt.projections.filterMap SelectItem.expr).flatMap columnRefs, Known name) ∧
      (∀ name ∈ stmt.whereExpr.toList.flatMap columnRefs, Known name) ∧
      (∀ name ∈ stmt.groupByColumns, Known name) ∧
        ∀ name ∈ stmt.orderBy.map Prod.fst, Known name := by
  -- The two lists of names come last.
  have names : (TypeChecker.checkColumns "Unknown GROUP BY column: "
      stmt.groupByColumns >>= fun _ =>
      TypeChecker.checkColumns "Unknown ORDER BY column: " (stmt.orderBy.map Prod.fst)) = .ok () ↔
      (∀ name ∈ stmt.groupByColumns, Known name) ∧
        ∀ name ∈ stmt.orderBy.map Prod.fst, Known name := by
    rw [ok_bind_iff, ← checkColumns_ok_iff, ← checkColumns_ok_iff]
    exact ⟨fun ⟨_, one, two⟩ => ⟨one, two⟩, fun ⟨one, two⟩ => ⟨(), one, two⟩⟩
  rw [← checkProjections_ok_iff wild, TypeChecker.checkQuery, ok_bind_iff]
  cases stmt.whereExpr with
  | none =>
    constructor
    · rintro ⟨_, items, rest⟩
      exact ⟨items, fun _ listed => absurd listed List.not_mem_nil, names.mp rest⟩
    · rintro ⟨items, _, rest⟩
      exact ⟨(), items, names.mpr rest⟩
  | some e =>
    rw [Option.toList_some, List.flatMap_singleton, ← checkExpression_ok_iff e]
    constructor
    · rintro ⟨_, items, more⟩
      obtain ⟨type, filter, rest⟩ := ok_bind_iff.mp more
      exact ⟨items, ⟨type, filter⟩, names.mp rest⟩
    · rintro ⟨items, ⟨type, filter⟩, rest⟩
      exact ⟨(), items, ok_bind_iff.mpr ⟨type, filter, names.mpr rest⟩⟩

mutual

/-- The names that are looked up while an expression is lowered: of a call only its first
argument, and of a count nothing. -/
def lookups : Expression → List Bytes
  | .literal _ _ _ => []
  | .columnRef name _ _ => [name]
  | .binaryOp _ left right _ _ => lookups left ++ lookups right
  | .unaryOp _ operand _ _ => lookups operand
  | .functionCall name args _ _ =>
    if name.map toLower = nameBytes "count" then [] else argumentLookups args

def argumentLookups : List Expression → List Bytes
  | [] => []
  | arg :: _ => lookups arg

end

/-- The names that are looked up while a statement is lowered. -/
def loweredNames (stmt : QueryStmt) : List Bytes :=
  match Builder.aggregateCall stmt with
  | some (name, args) => if name.map toLower = nameBytes "count" then [] else argumentLookups args
  | none =>
    match stmt.whereExpr with
    | some cond => lookups cond
    | none =>
      match stmt.projections.head?.bind SelectItem.expr with
      | some e => lookups e
      | none => []

def columnLoads (code : List Instruction) : List UInt32 :=
  code.filterMap fun instr => match instr.payload with
    | .column id => some id
    | _ => none

theorem columnLoads_append (first second : List Instruction) :
    columnLoads (first ++ second) = columnLoads first ++ columnLoads second := List.filterMap_append

/-- The columns a function loads, block by block. -/
def functionLoads (function : Function) : List UInt32 :=
  function.blocks.flatMap fun block => columnLoads block.instructions

/-- The number a name is loaded by, zero for a name that is not known. -/
def loadedAs (name : Bytes) : UInt32 := (Builder.columnInfo name).1

/-- A step of the builder that appends loads of the names to the only block, and no others. -/
def Loads {α : Type} (build : Builder.Build α) (names : List Bytes) : Prop :=
  ∀ code parameters next, ∃ value added later, build ⟨⟨[⟨code⟩], parameters, next⟩, 0⟩ =
    (value, ⟨⟨[⟨code ++ added⟩], parameters, later⟩, 0⟩) ∧ columnLoads added = names.map loadedAs

section Loads

variable {α β : Type}

theorem Loads.pure (value : α) : Loads (Pure.pure value) [] :=
  fun code parameters next => ⟨value, [], next, by rw [List.append_nil]; rfl, rfl⟩

theorem Loads.bind {first : Builder.Build α} {next : α → Builder.Build β} {one two : List Bytes}
    (head : Loads first one)
    (rest : ∀ value, Loads (next value) two) : Loads (first >>= next) (one ++ two) := by
  intro code parameters id
  obtain ⟨value, added, later, run, loads⟩ := head code parameters id
  obtain ⟨value', added', later', run', loads'⟩ := rest value (code ++ added) parameters later
  refine ⟨value', added ++ added', later',
    ?_, by rw [columnLoads_append, loads, loads', List.map_append]⟩
  rw [← List.append_assoc, ← run']
  change next (first _).1 (first _).2 = _
  rw [run]

theorem Loads.define {instruction : ValueId → Instruction} {names : List Bytes}
    (loads : ∀ result, columnLoads [instruction result] = names.map loadedAs) :
    Loads (Builder.define instruction) names :=
  fun _ _ next => ⟨next, [instruction next], next + 1, rfl, loads next⟩

theorem Loads.append {instruction : Instruction} (none : columnLoads [instruction] = []) :
    Loads (Builder.append instruction) [] :=
  fun _ _ next => ⟨(), [instruction], next, rfl, none⟩

theorem Loads.row {next : ValueId → Builder.Build β} {names : List Bytes}
    (rest : ∀ value, Loads (next value) names) :
    Loads (Builder.rowIndex >>= next) names :=
  fun code parameters id => rest (parameters.headD 0) code parameters id

theorem lowerBinary_loads (op : TokenType) (lhs rhs : ValueId) (type : IrType) :
    Loads (Builder.lowerBinary op lhs rhs type) [] := by
  cases op <;> first | exact Loads.define fun _ => rfl | exact Loads.pure _

theorem lowerUnary_loads (op : TokenType) (operand : ValueId) :
    Loads (Builder.lowerUnary op operand) [] := by
  cases op <;> first | exact Loads.define fun _ => rfl | exact Loads.pure _

theorem createAggregate_loads (fname : Bytes) (arg : ValueId) (type : IrType) :
    Loads (Builder.createAggregate fname arg type) [] := by
  unfold Builder.createAggregate
  by_cases sum : fname = nameBytes "sum"
  · rw [if_pos sum]
    exact Loads.define fun _ => rfl
  by_cases min : fname = nameBytes "min"
  · rw [if_neg sum, if_pos min]
    exact Loads.define fun _ => rfl
  by_cases max : fname = nameBytes "max"
  · rw [if_neg sum, if_neg min, if_pos max]
    exact Loads.define fun _ => rfl
  · rw [if_neg sum, if_neg min, if_neg max]
    exact Loads.pure _

mutual

theorem lowerExpression_loads : (e : Expression) → Loads (Builder.lowerExpression e) (lookups e)
  | .literal _ _ _ => Loads.define fun _ => rfl
  | .columnRef _ _ _ => Loads.row fun _ => Loads.define fun _ => rfl
  | .binaryOp op left right _ _ => by
    have operands := (lowerExpression_loads left).bind fun lhs =>
      (lowerExpression_loads right).bind fun rhs =>
        lowerBinary_loads op lhs rhs (if Builder.inferType left = .i64 ∨
          Builder.inferType right = .i64 then .i64 else .u64)
    rw [List.append_nil] at operands
    rw [Builder.lowerExpression, lookups]
    exact operands
  | .unaryOp op operand _ _ => by
    have inner := (lowerExpression_loads operand).bind fun lowered => lowerUnary_loads op lowered
    rw [List.append_nil] at inner
    rw [Builder.lowerExpression, lookups]
    exact inner
  | .functionCall name args _ _ => by
    rw [Builder.lowerExpression, lookups]
    by_cases count : name.map toLower = nameBytes "count"
    · rw [if_pos count, if_pos count]
      exact Loads.row fun _ => Loads.define fun _ => rfl
    · rw [if_neg count, if_neg count]
      exact lowerArgument_loads (name.map toLower) args

theorem lowerArgument_loads (fname : Bytes) : (args : List Expression) →
    Loads (Builder.lowerArgument fname args) (argumentLookups args)
  | [] => Loads.pure _
  | arg :: _ => by
    have inner := (lowerExpression_loads arg).bind fun lowered =>
      createAggregate_loads fname lowered (Builder.inferType arg)
    rw [List.append_nil] at inner
    rw [Builder.lowerArgument, argumentLookups]
    exact inner

end

theorem createReturn_loads (value : ValueId) : Loads (Builder.createReturn value) [] :=
  Loads.append (by unfold Instruction.returnOp; rfl)

theorem Loads.returned {build : Builder.Build ValueId} {names : List Bytes}
    (loads : Loads build names) :
    Loads (build >>= Builder.createReturn) names := by
  have whole := loads.bind createReturn_loads
  rwa [List.append_nil] at whole

theorem lowerStatement_loads (stmt : QueryStmt) :
    Loads (Builder.lowerStatement stmt) (loweredNames stmt) := by
  unfold Builder.lowerStatement loweredNames
  cases Builder.aggregateCall stmt with
  | some call =>
    obtain ⟨name, args⟩ := call
    dsimp only
    by_cases count : name.map toLower = nameBytes "count"
    · rw [if_pos count, if_pos count]
      exact Loads.row fun row =>
        (Loads.define fun _ => rfl : Loads (Builder.createCount row) []).returned
    · rw [if_neg count, if_neg count]
      exact (lowerArgument_loads _ args).returned
  | none =>
    dsimp only
    cases stmt.whereExpr with
    | some cond => exact (lowerExpression_loads cond).returned
    | none =>
      dsimp only
      cases stmt.projections.head?.bind SelectItem.expr with
      | some e => exact (lowerExpression_loads e).returned
      | none => exact (Loads.define fun _ => rfl : Loads (Builder.createConstU64 1) []).returned

theorem buildFromQuery_loads (stmt : QueryStmt) :
    functionLoads (Builder.buildFromQuery stmt) = (loweredNames stmt).map loadedAs := by
  obtain ⟨value, added, later, run, loads⟩ := lowerStatement_loads stmt [] [1] 2
  have built : Builder.buildFromQuery stmt =
      (Builder.lowerStatement stmt ⟨⟨[⟨[]⟩], [1], 2⟩, 0⟩).2.function := rfl
  rw [built, run, ← loads]
  exact List.append_nil _

end Loads

mutual

theorem lookups_sub : ∀ e : Expression, ∀ name ∈ lookups e, name ∈ columnRefs e
  | .literal _ _ _, _, listed => absurd listed List.not_mem_nil
  | .columnRef _ _ _, _, listed => listed
  | .binaryOp _ left right _ _, name, listed => by
    rcases List.mem_append.mp listed with first | second
    · exact List.mem_append_left _ (lookups_sub left name first)
    · exact List.mem_append_right _ (lookups_sub right name second)
  | .unaryOp _ operand _ _, name, listed => lookups_sub operand name listed
  | .functionCall fname args _ _, name, listed => by
    rw [lookups] at listed
    by_cases count : fname.map toLower = nameBytes "count"
    · rw [if_pos count] at listed
      exact absurd listed List.not_mem_nil
    · rw [if_neg count] at listed
      exact argumentLookups_sub args name listed

theorem argumentLookups_sub : ∀ args : List Expression, ∀ name ∈ argumentLookups args,
    name ∈ argumentRefs args
  | [], _, listed => absurd listed List.not_mem_nil
  | arg :: _, name, listed => List.mem_append_left _ (lookups_sub arg name listed)

end

theorem aggregateCall_mem {stmt : QueryStmt} {name : Bytes} {args : List Expression}
    (call : Builder.aggregateCall stmt = some (name, args)) :
    ∃ line column, Expression.functionCall name args line column ∈ Parser.expressions stmt := by
  unfold Builder.aggregateCall at call
  unfold Parser.expressions
  cases entries : stmt.aggregations with
  | nil =>
    rw [entries] at call
    obtain ⟨item, member, found⟩ := List.exists_of_findSome?_eq_some call
    cases shape : item.expr with
    | none =>
      rw [shape] at found
      cases found
    | some e =>
      rw [shape] at found
      cases e with
      | functionCall other others line column =>
        cases found
        have listed : Expression.functionCall name args line column ∈
            stmt.projections.filterMap SelectItem.expr :=
          List.mem_filterMap.mpr ⟨item, member, shape⟩
        exact ⟨line, column, by simp [listed]⟩
      | _ => cases found
  | cons first rest =>
    rw [entries] at call
    obtain ⟨label, e⟩ := first
    cases e with
    | functionCall other others line column =>
      cases call
      exact ⟨line, column, by simp⟩
    | _ => cases call

theorem loweredNames_sub (stmt : QueryStmt) :
    ∀ name ∈ loweredNames stmt, name ∈ mentioned stmt := by
  have inside {e : Expression} (member : e ∈ Parser.expressions stmt) {name : Bytes}
      (listed : name ∈ columnRefs e) :
      name ∈ mentioned stmt :=
    List.mem_append_left _ (List.mem_append_left _ (List.mem_flatMap.mpr ⟨e, member, listed⟩))
  intro name listed
  unfold loweredNames at listed
  cases call : Builder.aggregateCall stmt with
  | some found =>
    obtain ⟨fname, args⟩ := found
    rw [call] at listed
    dsimp only at listed
    obtain ⟨line, column, member⟩ := aggregateCall_mem call
    by_cases count : fname.map toLower = nameBytes "count"
    · rw [if_pos count] at listed
      exact absurd listed List.not_mem_nil
    · rw [if_neg count] at listed
      exact inside member (argumentLookups_sub args name listed)
  | none =>
    rw [call] at listed
    dsimp only at listed
    cases filter : stmt.whereExpr with
    | some cond =>
      rw [filter] at listed
      exact inside (by simp [Parser.expressions, filter]) (lookups_sub cond name listed)
    | none =>
      rw [filter] at listed
      dsimp only at listed
      cases first : stmt.projections.head?.bind SelectItem.expr with
      | none =>
        rw [first] at listed
        exact absurd listed List.not_mem_nil
      | some e =>
        rw [first] at listed
        obtain ⟨item, head, shape⟩ := Option.bind_eq_some_iff.mp first
        have member : e ∈ stmt.projections.filterMap SelectItem.expr :=
          List.mem_filterMap.mpr ⟨item, List.mem_of_head? head, shape⟩
        exact inside (by simp [Parser.expressions, member]) (lookups_sub e name listed)

theorem mentioned_iff (stmt : QueryStmt) : (∀ name ∈ mentioned stmt, Known name) ↔
    ((∀ name ∈ (stmt.projections.filterMap SelectItem.expr).flatMap columnRefs, Known name) ∧
      (∀ name ∈ stmt.whereExpr.toList.flatMap columnRefs, Known name) ∧
      (∀ name ∈ stmt.groupByColumns, Known name) ∧ ∀ name ∈ stmt.orderBy.map Prod.fst, Known name) ∧
    ∀ name ∈ (unvisited stmt).flatMap columnRefs, Known name := by
  unfold mentioned Parser.expressions unvisited
  simp only [List.flatMap_append, List.forall_mem_append]
  tauto

/-- All columns of a checked query are known, and none is looked up in vain, exactly
where those in the clauses that are not visited are known. The loads of the built
function are those looked up. -/
theorem checkQuery_known_iff {fuel : Nat} {text : Bytes} {stmt : QueryStmt}
    (accepted : Parser.parse fuel text = some (.ok stmt))
    (checked : TypeChecker.checkQuery stmt = .ok ()) :
    functionLoads (Builder.buildFromQuery stmt) = (loweredNames stmt).map loadedAs ∧
    (((∀ name ∈ mentioned stmt, Known name) ∧ ∀ name ∈ loweredNames stmt, Known name) ↔
      ∀ name ∈ (unvisited stmt).flatMap columnRefs, Known name) := by
  obtain ⟨tokens, eof, after, _, _, _, _, _, sound, _⟩ := Parser.parse_sound accepted
  have wild : ∀ item ∈ stmt.projections, item.isWildcard = true → item.expr = none := by
    intro item listed wildcard
    rcases sound.projections item listed with ⟨_, none⟩ | ⟨other, _⟩
    · exact none
    · rw [wildcard] at other
      cases other
  have visited := (checkQuery_ok_iff wild).mp checked
  refine ⟨buildFromQuery_loads stmt,
    fun both => ((mentioned_iff stmt).mp both.1).2, fun others => ?_⟩
  have all := (mentioned_iff stmt).mpr ⟨visited, others⟩
  exact ⟨all, fun name listed => all name (loweredNames_sub stmt name listed)⟩

/-- `SELECT price AGG sum(quantity)` -/
theorem checkQuery_known_sum : ∃ stmt,
    Parser.parse 60 (nameBytes "SELECT price AGG sum(quantity)") = some (.ok stmt) ∧
    TypeChecker.checkQuery stmt = .ok () ∧ ∀ name ∈ loweredNames stmt, Known name := by
  obtain ⟨stmt, accepted, tested⟩ :=
    @Parser.accepted_of_test 60 (nameBytes "SELECT price AGG sum(quantity)")
    (fun stmt => decide (TypeChecker.checkQuery stmt = .ok ()) &&
      decide (∀ name ∈ (unvisited stmt).flatMap columnRefs, Known name)) (by decide +kernel)
  rw [Bool.and_eq_true] at tested
  have checked := of_decide_eq_true tested.1
  exact ⟨stmt, accepted, checked,
    ((checkQuery_known_iff accepted checked).2.mpr (of_decide_eq_true tested.2)).2⟩

/-- The name in the aggregation is not known, and column zero is loaded for it. -/
theorem checkQuery_misses_aggregation : ∃ stmt,
    Parser.parse 60 (nameBytes "SELECT price AGG sum(nosuch)") = some (.ok stmt) ∧
      TypeChecker.checkQuery stmt = .ok () ∧
      nameBytes "nosuch" ∈ mentioned stmt ∧ ¬ Known (nameBytes "nosuch") ∧
      nameBytes "nosuch" ∈ loweredNames stmt ∧
        functionLoads (Builder.buildFromQuery stmt) = [0] := by
  obtain ⟨stmt, accepted, tested⟩ :=
    @Parser.accepted_of_test 60 (nameBytes "SELECT price AGG sum(nosuch)")
    (fun stmt => decide (TypeChecker.checkQuery stmt = .ok ()) && decide
      (nameBytes "nosuch" ∈ mentioned stmt) &&
      decide (nameBytes "nosuch" ∈ loweredNames stmt) &&
      decide (functionLoads (Builder.buildFromQuery stmt) = [0])) (by decide +kernel)
  rw [Bool.and_eq_true, Bool.and_eq_true, Bool.and_eq_true] at tested
  obtain ⟨⟨⟨checked, named⟩, lowered⟩, loads⟩ := tested
  exact ⟨stmt, accepted, of_decide_eq_true checked, of_decide_eq_true named, by decide +kernel,
    of_decide_eq_true lowered, of_decide_eq_true loads⟩

end VectorTick.Ir
