import VectorTick.Execution.Batches
import VectorTick.Execution.Lowering
import VectorTick.Execution.Positions
import VectorTick.Storage.Durability

/-! The query application: the text is parsed, the segment file is opened, and one of
two engines runs over its events.

Every error ends `main` with 1. -/

set_option autoImplicit false

namespace VectorTick

open Foundation Vts1 Query Ir Evaluation ReferenceInterpreter SegmentWriter

def VectorExecutor.execute (reader : SegmentReader) (query : QueryStmt) :
    Except Stop QueryResult := do
  let events ← reader.readAllEvents
  return VectorExecutor.executeEvents events query

namespace QueryApp

/-- What is printed behind a query that ran. -/
inductive Output where
  | table (result : QueryResult)
  | matched (rows : UInt64) (scanned : Nat)
  deriving DecidableEq, Repr

/-- The loop of the interpreter engine. A row on which the query returns an error does not match;
what has no defined outcome has none here. -/
def matchRows (function : Function) (fuel : Nat) : List CanonicalEvent → UInt64 → Except Stop UInt64
  | [], matched => .ok matched
  | event :: rest, matched =>
    match execute function fuel event with
    | .ok value => matchRows function fuel rest (if value ≠ 0 then matched + 1 else matched)
    | .error (.status _) => matchRows function fuel rest matched
    | .error stop => .error stop

def run (fuel : Nat) (reader : SegmentReader) (engine : String) (query : QueryStmt) :
    Except Stop Output :=
  if engine = "vector" then do
    let result ← VectorExecutor.execute reader query
    return .table result
  else do
    let function := Builder.buildFromQuery query
    let events ← reader.readAllEvents
    let matched ← matchRows function fuel events 0
    return .matched matched events.length

/-- `main` behind its arguments: `found` is the file at the segment path, if any. `fuel` bounds
the loops of the parser and the blocks a row runs through; without any left there is no result. -/
def main (fuel : Nat) (found : Option Bytes) (engine : String)
    (limitOverride : UInt64) (text : Bytes) :
    Option (Except Stop Output) :=
  match Parser.parse fuel text with
  | none => none
  | some (.error stop) => some (.error stop)
  | some (.ok query) =>
    let query := if limitOverride > 0 then { query with limit := limitOverride } else query
    match SegmentReader.openFile found with
    | .error stop => some (.error stop)
    | .ok reader => some (run fuel reader engine query)

def Holds (e : Expression) (event : CanonicalEvent) : Bool :=
  match evaluate event e with
  | .ok value => value ≠ 0
  | .error _ => false

def Faults (e : Expression) (event : CanonicalEvent) : Bool := evaluate event e = .error .fault

section Evaluation

theorem bind_ne_terminate {α β : Type} {first : Except Stop α} {next : α → Except Stop β}
    (one : first ≠ .error .terminate) (others : ∀ value, next value ≠ .error .terminate) :
    first >>= next ≠ .error .terminate := by
  intro ends
  cases first with
  | error stop =>
    cases ends
    exact one rfl
  | ok value => exact others value ends

theorem applyBinary_ne_terminate (op : TokenType) (type : IrType) (a b : UInt64) :
    applyBinary op type a b ≠ .error .terminate := by
  cases op <;>
    simp [applyBinary, arithmetic, quotient, remainder, comparison, fitSigned,
      fitUnsigned, failWith] <;>
    split_ifs <;> simp

theorem applyUnary_ne_terminate (op : TokenType) (a : UInt64) :
    applyUnary op a ≠ .error .terminate := by
  cases op <;> simp [applyUnary, fitSigned, failWith]
  split_ifs <;> simp

theorem evaluate_ne_terminate (event : CanonicalEvent) (e : Expression) :
    evaluate event e ≠ .error .terminate := by
  induction e using Expression.induction (Q := fun _ => True) with
  | literal | columnRef | functionCall => simp [evaluate]
  | binaryOp op left right line column one two =>
    rw [evaluate]
    exact bind_ne_terminate one fun a => bind_ne_terminate two fun b =>
      applyBinary_ne_terminate op _ a b
  | unaryOp op operand line column ih =>
    rw [evaluate]
    exact bind_ne_terminate ih fun a => applyUnary_ne_terminate op a
  | nil => trivial
  | cons => trivial

end Evaluation

theorem matchRows_filter {query : QueryStmt} {e : Expression}
    (noAggregate : Lowering.NoAggregate query)
    (filter : query.whereExpr = some e) (free : CallFree e) {fuel : Nat} (enough : 0 < fuel)
    (events : List CanonicalEvent) (matched : UInt64) :
    matchRows (Builder.buildFromQuery query) fuel events matched =
      if events.any (Faults e) then Except.error Stop.fault
      else Except.ok (matched + UInt64.ofNat (events.countP (Holds e))) := by
  induction events generalizing matched with
  | nil => simp [matchRows]
  | cons event rest ih =>
    rw [matchRows, Lowering.lowering_preserves_meaning noAggregate filter free enough]
    cases outcome : evaluate event e with
    | ok value =>
      have sound : Faults e event = false := by simp [Faults, outcome]
      dsimp only
      rw [ih, List.any_cons, sound, Bool.false_or, List.countP_cons]
      by_cases zero : value = 0
      · simp [Holds, outcome, zero]
      · have matches_ : Holds e event = true := by simp [Holds, outcome, zero]
        rw [if_pos zero, if_pos matches_, UInt64.ofNat_add, UInt64.add_assoc,
          UInt64.add_comm (UInt64.ofNat _)]
        rfl
    | error stop =>
      cases stop with
      | status failed =>
        -- An error of the interpreter is a row that does not match.
        have sound : Faults e event = false := by simp [Faults, outcome]
        have unmatched : Holds e event = false := by simp [Holds, outcome]
        dsimp only
        rw [ih, List.any_cons, sound, Bool.false_or, List.countP_cons_of_neg (by simp [unmatched])]
      | fault => simp [Faults, outcome]
      | terminate => exact absurd outcome (evaluate_ne_terminate event e)

section Engines

variable {file : Bytes} {rows : List CanonicalEvent} {query : QueryStmt} {fuel : Nat}

theorem executeEvents_filter (plain : query.projections = []) :
    (VectorExecutor.executeEvents rows query).rows = VectorExecutor.capped query.limit
      (List.replicate (rows.countP (VectorExecutor.passes query.whereExpr)) []) := by
  have aggregates : VectorExecutor.hasAggregates query = false := by
    simp [VectorExecutor.hasAggregates, plain]
  have alone : VectorExecutor.selectsAlone query.whereExpr =
      VectorExecutor.passes query.whereExpr :=
    funext (VectorExecutor.selectsAlone_eq query.whereExpr)
  have printed : VectorExecutor.projectRow query = fun _ => [] := by
    funext event
    simp [VectorExecutor.projectRow, plain]
  rw [← VectorExecutor.executeInto_eq VectorExecutor.usedBuffers,
    VectorExecutor.executeInto_rows _ _ _ aggregates, alone, printed, List.map_const',
    List.countP_eq_length_filter]

/-- The query that is run: `-l` takes the place of the limit in the text. -/
def limited (limitOverride : UInt64) (query : QueryStmt) : QueryStmt :=
  if limitOverride > 0 then { query with limit := limitOverride } else query

theorem limited_filter (limitOverride : UInt64) (table : Bytes)
    (e : Expression) (line column : Nat) :
    limited limitOverride (Parser.filterQuery table e line column) =
      { Parser.filterQuery table e line column with limit := limitOverride } := by
  unfold limited
  by_cases given : limitOverride > 0
  · rw [if_pos given]
  · rw [if_neg given, UInt64.toNat_inj.mp (show limitOverride.toNat = (0 : UInt64).toNat by
      rw [gt_iff_lt, UInt64.lt_iff_toNat_lt] at given
      simpa using given)]
    rfl

theorem main_reads (reads : SegmentReader.Reads file rows) {text : Bytes}
    (parsed : Parser.parse fuel text = some (.ok query))
    (engine : String) (limitOverride : UInt64) :
    ∃ reader, SegmentReader.openFile (some file) = .ok reader ∧ reader.readAllEvents = .ok rows ∧
      main fuel (some file) engine limitOverride text =
        some (run fuel reader engine (limited limitOverride query)) := by
  obtain ⟨reader, opened, -, read⟩ := reads
  refine ⟨reader, opened, read, ?_⟩
  unfold main
  rw [parsed]
  dsimp only
  rw [opened]
  rfl

section Filter

variable (reads : SegmentReader.Reads file rows) {table : Bytes} (letters : NameText table)
  (named : Lexer.lookupKeyword table = .identifier) {e : Expression} (printable : Printable e)
  (enough : (printAt 0 e).length + 3 ≤ fuel) (limitOverride : UInt64)
include reads letters named printable enough

theorem main_filter : ∃ e' line column, shape e' = shape e ∧
    ∀ engine, ∃ reader, reader.readAllEvents = .ok rows ∧
    main fuel (some file) engine limitOverride (Lexer.written (Parser.filterWords table e)) =
      some (run fuel reader engine
        { Parser.filterQuery table e' line column with limit := limitOverride }) := by
  obtain ⟨outcome, rest, parsed, e', line, column, same, rfl⟩ :=
    Parser.parse_of_goes (Parser.goes_filter named printable enough)
      (Parser.stands_filterWords letters printable)
  refine ⟨e', line, column, same, fun engine => ?_⟩
  obtain ⟨reader, -, read, ran⟩ := main_reads reads parsed engine limitOverride
  exact ⟨reader, read, limited_filter limitOverride table e' line column ▸ ran⟩

theorem main_vector :
    ∃ result,
      main fuel (some file) "vector" limitOverride (Lexer.written (Parser.filterWords table e)) =
        some (.ok (.table result)) ∧ result.rowsScanned = UInt64.ofNat rows.length ∧
      result.rows = VectorExecutor.capped limitOverride
        (List.replicate (rows.countP (VectorExecutor.passes (some e))) []) := by
  obtain ⟨e', line, column, same, answers⟩ :=
    main_filter reads letters named printable enough limitOverride
  obtain ⟨reader, read, ran⟩ := answers "vector"
  have passed : VectorExecutor.passes (some e') = VectorExecutor.passes (some e) := by
    funext event
    exact @of_shape _ (fun e => VectorExecutor.passes (some e) event) (passes_shape event) _ _ same
  rw [run, if_pos rfl, VectorExecutor.execute, read] at ran
  refine ⟨_, ran, rfl, ?_⟩
  rw [executeEvents_filter rfl, ← passed]
  rfl

theorem main_interpreter (free : CallFree e) {engine : String} (other : engine ≠ "vector") :
    main fuel (some file) engine limitOverride (Lexer.written (Parser.filterWords table e)) =
      some (if rows.any (Faults e) then .error .fault
        else .ok (.matched (UInt64.ofNat (rows.countP (Holds e))) rows.length)) := by
  obtain ⟨e', line, column, same, answers⟩ :=
    main_filter reads letters named printable enough limitOverride
  obtain ⟨reader, read, ran⟩ := answers engine
  -- The expression that was read has other positions only.
  have free' : CallFree e' := (callFree_shape e').mp (same ▸ (callFree_shape e).mpr free)
  have evaluated : ∀ event, evaluate event e' = evaluate event e :=
    fun event => of_shape (evaluate_shape event) same
  have held : Holds e' = Holds e := by
    funext event
    simp only [Holds, evaluated]
  have faulted : Faults e' = Faults e := by
    funext event
    simp only [Faults, evaluated]
  have positive : 0 < fuel := by omega
  have counted :=
    @matchRows_filter
    { Parser.filterQuery table e' line column with limit := limitOverride } e' rfl rfl free'
    fuel positive rows 0
  rw [held, faulted, UInt64.zero_add] at counted
  rw [ran, run, if_neg other, read]
  change some (matchRows _ fuel rows 0 >>= fun matched => _) = _
  rw [counted]
  cases rows.any (Faults e) <;> rfl

/-- What the two engines print of a filter over a segment. The interpreter counts the
rows of which the filter is true, if none faults. The vectorised engine shows the rows
that pass, up to the limit. -/
theorem main_answers (free : CallFree e) :
    let text := Lexer.written (Parser.filterWords table e)
    (∃ result, main fuel (some file) "vector" limitOverride text = some (.ok (.table result)) ∧
      result.rowsScanned = UInt64.ofNat rows.length ∧
      result.rows = VectorExecutor.capped limitOverride
        (List.replicate (rows.countP (VectorExecutor.passes (some e))) [])) ∧
    ∀ engine, engine ≠ "vector" → main fuel (some file) engine limitOverride text =
      some (if rows.any (Faults e) then .error .fault
        else .ok (.matched (UInt64.ofNat (rows.countP (Holds e))) rows.length)) :=
  ⟨main_vector reads letters named printable enough limitOverride,
    fun _ other => main_interpreter reads letters named printable enough limitOverride free other⟩

end Filter

/-- `price_ticks - 5 > 90` -/
def dearFilter : Expression :=
  .binaryOp .greater (.binaryOp .minus (.columnRef (nameBytes "price_ticks") 0 0)
    (.literal 5 0 0) 0 0) (.literal 90 0 0) 0 0

theorem dearFilter_printable : Printable dearFilter := by
  have isName : IsName (nameBytes "price_ticks") := isName_column .priceTicks
  simp [dearFilter, Printable, isBinaryOperator, isName]

theorem main_answers_quote : ∃ file result, SegmentReader.Reads file [quoteEvent] ∧
    let text := Lexer.written (Parser.filterWords (nameBytes "events") dearFilter)
    main 40 (some file) "vector" 0 text = some (.ok (.table result)) ∧ result.rows = [[]] ∧
      main 40 (some file) "interpreter" 0 text = some (.ok (.matched 1 1)) := by
  obtain ⟨file, reads⟩ := quote_readable
  obtain ⟨⟨result, ran, -, shown⟩, other⟩ :=
    @main_answers file [quoteEvent] 40 reads (nameBytes "events")
    (nameText_word (by decide)) lookupKeyword_table dearFilter dearFilter_printable (by decide) 0
    ⟨rfl, ⟨rfl, trivial, trivial⟩, trivial⟩
  have holds : Holds dearFilter quoteEvent = true := by decide
  have sound : Faults dearFilter quoteEvent = false := by decide
  have counted := other "interpreter" (by decide)
  refine ⟨file, result, reads, ran, shown, ?_⟩
  simpa [holds, sound] using counted

section Comparison

open VectorExecutor (Comparison columnValue leaf LeafRight)

variable {column : ColumnID} {op : Comparison} {literal : UInt64}

theorem columnNamed_column : columnNamed (nameBytes (getColumnName column)) = column := by
  cases column <;> decide

theorem operandType_column : operandType (.columnRef (nameBytes (getColumnName column)) 0 0)
    (.literal literal 0 0) =
    if column = .priceTicks then .i64 else .u64 := by
  have type : Builder.inferType (.columnRef (nameBytes (getColumnName column)) 0 0) = .i64 ↔
      column = .priceTicks := by
    cases column <;> decide
  have other : Builder.inferType (.literal literal 0 0) ≠ .i64 := by simp [Builder.inferType]
  simp [operandType, type, other]

theorem toNat_column (event : CanonicalEvent) (unsigned : column ≠ .priceTicks) :
    ((UInt64.ofInt (columnValue column event)).toNat : Int) = columnValue column event := by
  cases column
  case priceTicks => exact absurd rfl unsigned
  all_goals
    simp only [columnValue, ofInt_natCast, UInt64.toNat_ofNat', Nat.cast_inj]
    apply Nat.mod_eq_of_lt
    first
      | exact UInt64.toNat_lt _
      | exact (UInt32.toNat_lt _).trans (by decide)
      | exact (UInt16.toNat_lt _).trans (by decide)
      | exact (UInt8.toNat_lt _).trans (by decide)

theorem applyBinary_comparison (op : Comparison) (type : IrType) (a b : UInt64) : ∃ truth : Bool,
    applyBinary op.token type a b = .ok (if truth then 1 else 0) ∧
      (truth = true ↔
        if type = .i64 then op.Holds (signed a) (signed b) else op.Holds a.toNat b.toNat) := by
  cases op <;> refine ⟨_, rfl, ?_⟩ <;> split_ifs <;> simp [Comparison.Holds]

/-- The interpreter decides `column op literal` as the integers do, if a price is compared
with a literal that is one. -/
theorem evaluate_leaf (literalFits : column = .priceTicks → literal.toNat < 2 ^ 63)
    (event : CanonicalEvent) :
    ∃ truth : Bool, evaluate event (leaf column op literal 0 0 0 0 0 0) =
      .ok (if truth then 1 else 0) ∧
      (truth = true ↔ op.Holds (columnValue column event) literal.toNat) := by
  obtain ⟨truth, applied, right⟩ :=
    applyBinary_comparison op (if column = .priceTicks then .i64 else .u64)
    (UInt64.ofInt (columnValue column event)) literal
  refine ⟨truth, ?_, right.trans ?_⟩
  · rw [leaf, evaluate, evaluate, evaluate, columnNamed_column, operandType_column]
    exact applied
  · by_cases price : column = .priceTicks
    · subst price
      have value : signed (UInt64.ofInt (columnValue .priceTicks event)) =
          columnValue .priceTicks event := by
        rw [signed, columnValue, ofInt_toInt]
        rfl
      have bound : signed literal = literal.toNat := by
        rw [signed, VectorExecutor.toInt_toInt64, if_pos (literalFits rfl)]
      rw [if_pos rfl, if_pos rfl, value, bound]
    · simp [price, toNat_column event price]

theorem holds_leaf (literalFits : column = .priceTicks → literal.toNat < 2 ^ 63)
    (event : CanonicalEvent) :
    Holds (leaf column op literal 0 0 0 0 0 0) event = true ↔
      op.Holds (columnValue column event) literal.toNat := by
  obtain ⟨truth, evaluated, right⟩ := evaluate_leaf literalFits event
  rw [← right, Holds, evaluated]
  cases truth <;> simp

/-- Both engines report the same number of rows for `column op literal`, if the vectorised one
decides each row as the integers do. -/
theorem main_engines_agree (reads : SegmentReader.Reads file rows) {table : Bytes}
    (letters : NameText table)
    (named : Lexer.lookupKeyword table = .identifier)
    (literalFits : column = .priceTicks → literal.toNat < 2 ^ 63)
    (right : ∀ event ∈ rows, LeafRight column op literal event)
    (enough : 6 ≤ fuel) {engine : String}
    (other : engine ≠ "vector") :
    let text := Lexer.written (Parser.filterWords table (leaf column op literal 0 0 0 0 0 0))
    ∃ result, main fuel (some file) "vector" 0 text = some (.ok (.table result)) ∧
      main fuel (some file) engine 0 text =
        some (.ok (.matched (UInt64.ofNat result.rows.length) rows.length)) := by
  have known : isBinaryOperator op.token = true := by cases op <;> rfl
  have evaluated := @evaluate_leaf column op literal literalFits
  have held := @holds_leaf column op literal literalFits
  have printable : Printable (leaf column op literal 0 0 0 0 0 0) :=
    ⟨known, isName_column column, trivial⟩
  have free : CallFree (leaf column op literal 0 0 0 0 0 0) := ⟨known, trivial, trivial⟩
  have words : (printAt 0 (leaf column op literal 0 0 0 0 0 0)).length =
      3 := by simp [leaf, printAt]
  have passed : ∀ event, VectorExecutor.passes (some (leaf column op literal 0 0 0 0 0 0)) event =
      VectorExecutor.matchesLeaf op.token (nameBytes (getColumnName column)) literal event :=
        fun _ => rfl
  generalize leaf column op literal 0 0 0 0 0 0 = e at *
  have sound : rows.any (Faults e) = false := by
    rw [List.any_eq_false]
    intro event _
    obtain ⟨truth, value, -⟩ := evaluated event
    simp [Faults, value]
  have same : rows.countP (Holds e) = rows.countP (VectorExecutor.passes (some e)) := by
    apply List.countP_congr
    intro event listed
    rw [held, passed,
      (VectorExecutor.leafRight_iff column op literal event).mpr (right event listed)]
  have room : (printAt 0 e).length + 3 ≤ fuel := by rwa [words]
  obtain ⟨result, ran, -, shown⟩ := main_vector reads letters named printable room 0
  have counted := main_interpreter reads letters named printable room 0 free other
  have length : result.rows.length = rows.countP (VectorExecutor.passes (some e)) := by
    rw [shown, VectorExecutor.capped, if_pos rfl, List.length_replicate]
  rw [sound, same, ← length] at counted
  exact ⟨result, ran, counted⟩

theorem main_engines_agree_quote : ∃ file result, SegmentReader.Reads file [quoteEvent] ∧
    let text :=
  Lexer.written (Parser.filterWords (nameBytes "events") (leaf .quantity .greater 5 0 0 0 0 0 0))
    main 6 (some file) "vector" 0 text = some (.ok (.table result)) ∧
      main 6 (some file) "interpreter" 0 text =
        some (.ok (.matched (UInt64.ofNat result.rows.length) 1)) := by
  obtain ⟨file, reads⟩ := quote_readable
  obtain ⟨result, ran, counted⟩ :=
    @main_engines_agree file [quoteEvent] 6 .quantity .greater 5 reads (nameBytes "events")
    (nameText_word (by decide)) lookupKeyword_table (by decide)
      (fun event _ => .inl (by decide)) (by decide)
    "interpreter" (by decide)
  exact ⟨file, result, reads, ran, counted⟩

end Comparison

end Engines

end QueryApp

end VectorTick
