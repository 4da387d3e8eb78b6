import VectorTick.Execution.ExactAggregates
import VectorTick.Ir.TypeAgreement

/-! What the executors take a column's name for.

The checker and the builder resolve a name by a table, in any case of letters. The vectorised
executor compares it with the spellings it knows, each use by itself. -/

set_option autoImplicit false

namespace VectorTick.VectorExecutor

open Foundation Vts1 Query Ir

def projectedColumns : List (Bytes × ColumnID) :=
  [ (nameBytes "instrument_id", .instrumentId), (nameBytes "price_ticks", .priceTicks),
    (nameBytes "quantity", .quantity),
    (nameBytes "sequence", .sequence), (nameBytes "exchange_ts_ns", .exchangeTsNs),
    (nameBytes "receive_ts_ns", .receiveTsNs), (nameBytes "venue_id", .venueId),
      (nameBytes "source_id", .sourceId),
    (nameBytes "trade_or_order_id", .tradeOrOrderId) ]

def ProjectedName (name : Bytes) : Prop := name ∈ projectedColumns.map Prod.fst

instance (name : Bytes) : Decidable (ProjectedName name) := inferInstanceAs (Decidable (_ ∈ _))

/-- The executor projects the name to the column: in a query without aggregates, whatever else it
projects, each row has the value of the column in the place of the name. -/
def ProjectsColumn (name : Bytes) (column : ColumnID) : Prop :=
  ∀ (query : QueryStmt) (before after : List SelectItem) (item : SelectItem) (line position : Nat),
    query.projections = before ++ item :: after → item.expr = some (.columnRef name line position) →
    hasAggregates query = false → ∀ events : List CanonicalEvent,
      (executeEvents events query).rows =
        capped query.limit ((events.filter (selectsAlone query.whereExpr)).map fun event =>
          before.flatMap (projectCells (loadBatchFromEvents [event]) 0) ++
            columnValue column event ::
            after.flatMap (projectCells (loadBatchFromEvents [event]) 0))

section Cells

variable {item : SelectItem} {name : Bytes} {column : ColumnID} {line position : Nat}

theorem resolve_projected (listed : (name, column) ∈ projectedColumns) :
    TypeChecker.resolveColumn name = some column := by
  have all : ∀ entry ∈ projectedColumns, TypeChecker.resolveColumn entry.1 =
      some entry.2 := by decide
  exact all _ listed

theorem projectCells_listed (reference : item.expr = some (.columnRef name line position))
    (listed : (name, column) ∈ projectedColumns) (event : CanonicalEvent) :
    projectCells (loadBatchFromEvents [event]) 0 item = [columnValue column event] := by
  unfold projectCells
  rw [reference]
  simp only [projectedColumns, List.mem_cons, List.not_mem_nil, or_false, Prod.mk.injEq] at listed
  rcases listed with ⟨rfl, rfl⟩ | ⟨rfl, rfl⟩ | ⟨rfl, rfl⟩ | ⟨rfl, rfl⟩ | ⟨rfl, rfl⟩ |
    ⟨rfl, rfl⟩ | ⟨rfl, rfl⟩ |
    ⟨rfl, rfl⟩ | ⟨rfl, rfl⟩ <;> rfl

theorem projectCells_unlisted (reference : item.expr = some (.columnRef name line position))
    (unlisted : ¬ProjectedName name)
    (batch : ColumnBatch) (idx : Nat) : projectCells batch idx item = [0] := by
  simp only [ProjectedName, projectedColumns, List.map_cons, List.map_nil, List.mem_cons,
    List.not_mem_nil, or_false, not_or] at unlisted
  obtain ⟨instrument, price, quantity, sequence, exchange, receive, venue, source, order⟩ :=
    unlisted
  unfold projectCells
  rw [reference]
  dsimp only
  rw [if_neg instrument, if_neg price, if_neg quantity, if_neg sequence, if_neg exchange,
    if_neg receive, if_neg venue, if_neg source, if_neg order]

end Cells

def unitEvent : CanonicalEvent where
  exchangeTsNs := 1
  receiveTsNs := 1
  sequence := 1
  instrumentId := 1
  eventType := ⟨1⟩
  side := ⟨1⟩
  flags := 1
  priceTicks := 1
  quantity := 1
  venueId := 1
  sourceId := 1
  tradeOrOrderId := 1

theorem columnValue_unit (column : ColumnID) :
    columnValue column unitEvent = 1 := by cases column <;> decide

theorem executeEvents_rows (events : List CanonicalEvent) {query : QueryStmt}
    (plain : hasAggregates query = false) :
    (executeEvents events query).rows =
      capped query.limit
        ((events.filter (selectsAlone query.whereExpr)).map (projectRow query)) := by
  have rows := executeInto_rows usedBuffers events query plain
  rwa [executeInto_eq] at rows

theorem projectsColumn_iff {name : Bytes} {column : ColumnID}
    (resolved : TypeChecker.resolveColumn name = some column) :
    ProjectsColumn name column ↔ ProjectedName name := by
  constructor
  · intro projects
    by_contra unlisted
    let item : SelectItem := ⟨some (.columnRef name 1 8), [], false⟩
    let query : QueryStmt := ⟨[item], [], none, [], [], none, [], [], 0, 1, 1⟩
    have rows := projects query [] [] item 1 8 rfl rfl rfl [unitEvent]
    have cells : projectCells (loadBatchFromEvents [unitEvent]) 0 item = [0] :=
      projectCells_unlisted rfl unlisted _ 0
    rw [executeEvents_rows _ rfl] at rows
    have row : projectRow query unitEvent = [0] := by rw [projectRow, List.flatMap_singleton, cells]
    have chosen : [unitEvent].filter (selectsAlone query.whereExpr) = [unitEvent] := rfl
    rw [chosen, List.map_singleton, List.map_singleton, row, columnValue_unit] at rows
    have zero : ([[0]] : List (List Int)) = [[1]] := rows
    exact absurd zero (by decide)
  · intro listed query before after item line position projections reference plain events
    obtain ⟨⟨_, other⟩, member, rfl⟩ := List.mem_map.mp listed
    have same := resolve_projected member
    rw [resolved] at same
    cases same
    rw [executeEvents_rows _ plain]
    have row (event : CanonicalEvent) : projectRow query event =
        before.flatMap (projectCells (loadBatchFromEvents [event]) 0) ++ columnValue column event ::
          after.flatMap (projectCells (loadBatchFromEvents [event]) 0) := by
      rw [projectRow, projections, List.flatMap_append, List.flatMap_cons,
        projectCells_listed reference member]
      rfl
    rw [funext row]

def literalAs (column : ColumnID) (literal : UInt64) : Int :=
  match column with
  | .exchangeTsNs | .receiveTsNs | .sequence | .tradeOrOrderId => literal.toNat
  | .instrumentId | .quantity => literal.toUInt32.toNat
  | .flags | .venueId | .sourceId => literal.toUInt16.toNat
  | .eventType | .side => literal.toUInt8.toNat
  | .priceTicks => literal.toInt64.toInt

/-- The executor filters on the column by the name: the rows selected are those whose
value compares with the literal. -/
def FiltersColumn (op : Comparison) (name : Bytes) (column : ColumnID) : Prop :=
  ∀ (literal : UInt64) (l₁ c₁ l₂ c₂ l₃ c₃ : Nat) (events : List CanonicalEvent) (row : Nat),
    row ∈ selectedRows
      (some (.binaryOp op.token (.columnRef name l₁ c₁) (.literal literal l₂ c₂) l₃ c₃)) events ↔
      ∃ event, events[row]? = some event ∧ op.Holds (columnValue column event)
        (literalAs column literal)

/-- The spellings the filter knows, with the operators it has for them. -/
def FilteredName (op : Comparison) (name : Bytes) : Prop :=
  name = nameBytes "price_ticks" ∨ name = nameBytes "quantity" ∨
    (name = nameBytes "instrument_id" ∧ op ≠ .lessEqual ∧ op ≠ .greaterEqual) ∨
    (name = nameBytes "venue_id" ∧ op = .equal)

instance (op : Comparison) (left right : Int) : Decidable (op.Holds left right) := by
  cases op <;> unfold Comparison.Holds <;> infer_instance

/-- Two literals, one on each side of the value one. -/
def farLiteral : Comparison → UInt64
  | .equal | .greater | .greaterEqual => 2
  | .notEqual => 1
  | .less | .lessEqual => 0

def nearLiteral : Comparison → UInt64
  | .equal | .greaterEqual | .lessEqual => 1
  | .greater => 0
  | .notEqual | .less => 2

theorem farLiteral_fails (op : Comparison) (column : ColumnID) :
    ¬ op.Holds (columnValue column unitEvent) (literalAs column (farLiteral op)) := by
  cases op <;> cases column <;> decide

theorem nearLiteral_holds (op : Comparison) (column : ColumnID) :
    op.Holds (columnValue column unitEvent) (literalAs column (nearLiteral op)) := by
  cases op <;> cases column <;> decide

theorem filtersColumn_leaf {op : Comparison} {name : Bytes} {column : ColumnID} :
    FiltersColumn op name column ↔ ∀ (literal : UInt64) (event : CanonicalEvent),
      (matchesLeaf op.token name literal event = true ↔
        op.Holds (columnValue column event) (literalAs column literal)) := by
  constructor
  · intro filters literal event
    have rows := filters literal 1 1 1 1 1 1 [event] 0
    simpa [mem_selectedRows, passes] using rows
  · intro decided literal l₁ c₁ l₂ c₂ l₃ c₃ events row
    rw [mem_selectedRows]
    exact exists_congr fun event => and_congr_right fun _ => decided literal event

theorem filtersColumn_iff {op : Comparison} {name : Bytes} {column : ColumnID}
    (resolved : TypeChecker.resolveColumn name = some column) : FiltersColumn op name column ↔
      FilteredName op name := by
  have known {other : ColumnID}
      (same : TypeChecker.resolveColumn name = some other) : column = other :=
    Option.some.inj (resolved.symm.trans same)
  rw [filtersColumn_leaf]
  unfold matchesLeaf FilteredName
  by_cases price : name = nameBytes "price_ticks"
  · obtain rfl := @known .priceTicks (by rw [price]; decide)
    refine iff_of_true (fun literal event => ?_) (.inl price)
    rw [if_pos price, matchesPrice_iff]
    rfl
  by_cases instrument : name = nameBytes "instrument_id"
  · obtain rfl := @known .instrumentId (by rw [instrument]; decide)
    have quantity : name ≠ nameBytes "quantity" := by rw [instrument]; decide
    have venue : name ≠ nameBytes "venue_id" := by rw [instrument]; decide
    simp only [if_neg price, if_pos instrument, matchesInstrument_iff]
    constructor
    · intro decided
      have holds := (decided (nearLiteral op) unitEvent).mpr (nearLiteral_holds op .instrumentId)
      exact .inr (.inr (.inl ⟨instrument, holds.1⟩))
    · intro spelled literal event
      rcases spelled with is | is | both | both
      · exact absurd is price
      · exact absurd is quantity
      · exact and_iff_right both.2
      · exact absurd both.1 venue
  by_cases quantity : name = nameBytes "quantity"
  · obtain rfl := @known .quantity (by rw [quantity]; decide)
    refine iff_of_true (fun literal event => ?_) (.inr (.inl quantity))
    rw [if_neg price, if_neg instrument, if_pos quantity, matchesQuantity_iff]
    rfl
  by_cases venue : name = nameBytes "venue_id"
  · obtain rfl := @known .venueId (by rw [venue]; decide)
    simp only [if_neg price, if_neg instrument, if_neg quantity, if_pos venue]
    constructor
    · intro decided
      refine .inr (.inr (.inr ⟨venue, ?_⟩))
      cases op with
      | equal => rfl
      | notEqual => exact absurd (decided 1 unitEvent) (by decide)
      | less => exact absurd (decided 2 unitEvent) (by decide)
      | lessEqual => exact absurd (decided 2 unitEvent) (by decide)
      | greater => exact absurd (decided 0 unitEvent) (by decide)
      | greaterEqual => exact absurd (decided 0 unitEvent) (by decide)
    · rintro (is | is | both | ⟨_, rfl⟩) literal event
      · exact absurd is price
      · exact absurd is quantity
      · exact absurd both.1 instrument
      · rw [decide_eq_true_eq, ← UInt16.toNat_inj]
        exact Int.natCast_inj.symm
  · simp only [if_neg price, if_neg instrument, if_neg quantity, if_neg venue, true_iff]
    refine iff_of_false (fun decided => ?_) (by simp [price, instrument, quantity, venue])
    exact farLiteral_fails op column (decided (farLiteral op) unitEvent)

/-- The projection is a call of the aggregate, by any spelling of it, on the name. -/
def Calls (aggregate : Aggregate) (name : Bytes) (item : SelectItem) : Prop :=
  ∃ fname line position rest line' position', fname.map toUpper = nameBytes aggregate.upperName ∧
    item.expr = some (.functionCall fname (.columnRef name line position :: rest) line' position')

def selectedValues (query : QueryStmt) (column : ColumnID)
    (events : List CanonicalEvent) : List Int :=
  (events.filter (selectsAlone query.whereExpr)).map (columnValue column)

/-- The executor aggregates the column by the name: the cell of a call is found from
the column's values in the selected rows alone, and for the valid events of a segment
it is their exact aggregate. -/
structure AggregatesColumn (aggregate : Aggregate) (name : Bytes) (column : ColumnID) : Prop where
  reads : ∀ (query : QueryStmt) (i : Nat) (item : SelectItem), query.projections[i]? = some item →
    Calls aggregate name item → ∀ events others : List CanonicalEvent,
      selectedValues query column events = selectedValues query column others →
      (executeEvents events query).rows.map (·[i]?) = (executeEvents others query).rows.map (·[i]?)
  aggregates : ∀ (query : QueryStmt) (i : Nat) (item : SelectItem),
    query.projections[i]? = some item →
    Calls aggregate name item → ∀ events : List CanonicalEvent, events.length ≤
      SegmentConfig.maxRowsPerSegment →
      (∀ event ∈ events, Event.validate event = .ok ()) →
      ∀ cell, exactAggregate aggregate (selectedValues query column events) = some cell →
        (executeEvents events query).rows.map (·[i]?) = [some cell]

def measureOf (name : Bytes) : Measure := if name = nameBytes "quantity" then .quantity else .price

theorem aggregateCell_calls {aggregate : Aggregate} {name : Bytes} {item : SelectItem}
    (calls : Calls aggregate name item)
    (state : ExecState) :
    aggregateCell state item = VectorTick.cell aggregate (measureOf name) state := by
  obtain ⟨fname, line, position, rest, line', position', upper, call⟩ := calls
  unfold aggregateCell measureOf
  rw [call]
  dsimp only
  rw [upper, argumentName]
  by_cases quantity : name = nameBytes "quantity"
  · simp only [if_pos quantity]
    cases aggregate <;> rfl
  · simp only [if_neg quantity]
    cases aggregate <;> rfl

theorem hasAggregates_calls {query : QueryStmt} {i : Nat} {item : SelectItem}
    {aggregate : Aggregate} {name : Bytes}
    (found : query.projections[i]? = some item) (calls : Calls aggregate name item) :
    hasAggregates query = true := by
  obtain ⟨_, _, _, _, _, _, _, call⟩ := calls
  exact List.any_eq_true.mpr ⟨item, List.mem_of_getElem? found, by rw [call]; rfl⟩

theorem executeEvents_cell {query : QueryStmt} {i : Nat} {item : SelectItem}
    {aggregate : Aggregate} {name : Bytes}
    (found : query.projections[i]? = some item) (calls : Calls aggregate name item)
    (events : List CanonicalEvent) :
    (executeEvents events query).rows.map (·[i]?) =
      [some (VectorTick.cell aggregate (measureOf name)
        (batchLoop query events.length events ExecState.initial))] := by
  have aggregates := hasAggregates_calls found calls
  have absorbed := absorbed_events aggregates events
  rw [executeEvents, aggregates, if_pos rfl, absorbed.rows, List.nil_append, List.map_singleton,
    List.getElem?_map, found, Option.map_some, aggregateCell_calls calls]

theorem cell_determined {seen others : List CanonicalEvent} {state state' : ExecState}
    (one : Absorbed seen state)
    (two : Absorbed others state') (aggregate : Aggregate) {measure : Measure}
    (same : seen.map measure.value = others.map measure.value) :
    VectorTick.cell aggregate measure state = VectorTick.cell aggregate measure state' := by
  have lengths : seen.length = others.length := by simpa using congrArg List.length same
  have count : state.aggCount = state'.aggCount := by rw [one.count, two.count, lengths]
  cases measure with
  | price =>
    have words (events : List CanonicalEvent) : events.map priceWord =
        (events.map Measure.price.value).map UInt64.ofInt := by
      rw [List.map_map]
      exact List.map_congr_left fun event _ => (ofInt_toInt event.priceTicks).symm
    have sum : state.aggSumPrice.toUInt64 = state'.aggSumPrice.toUInt64 := by
      rw [one.sumPrice, two.sumPrice, words, words, same]
    replace sum : state.aggSumPrice = state'.aggSumPrice := congrArg UInt64.toInt64 sum
    have least : state.aggMinPrice = state'.aggMinPrice :=
      Int64.toInt_inj.mp
        ((one.minPrice.trans (congrArg (List.foldl min _) same)).trans two.minPrice.symm)
    have dual := congrArg (List.map (OrderDual.toDual : Int → Down)) same
    rw [List.map_map, List.map_map] at dual
    have greatest : state.aggMaxPrice = state'.aggMaxPrice := Int64.toInt_inj.mp
      (OrderDual.toDual.injective
        ((one.maxPrice.trans (congrArg (List.foldl min _) dual)).trans two.maxPrice.symm))
    cases aggregate <;> dsimp only [VectorTick.cell] <;> simp only [count, sum, least, greatest]
  | quantity =>
    have words (events : List CanonicalEvent) :
        events.map quantityWord = (events.map Measure.quantity.value).map UInt64.ofInt := by
      rw [List.map_map]
      exact List.map_congr_left fun event _ => (ofInt_natCast _).trans UInt64.ofNat_toNat |>.symm
    have sum : state.aggSumQty = state'.aggSumQty := by
      rw [one.sumQty, two.sumQty, words, words, same]
    have least : state.aggMinQty = state'.aggMinQty := UInt32.toNat_inj.mp (Int.natCast_inj.mp
      ((one.minQty.trans (congrArg (List.foldl min _) same)).trans two.minQty.symm))
    have dual := congrArg (List.map (OrderDual.toDual : Int → Down)) same
    rw [List.map_map, List.map_map] at dual
    have greatest : state.aggMaxQty = state'.aggMaxQty := UInt32.toNat_inj.mp (Int.natCast_inj.mp
      (OrderDual.toDual.injective
        ((one.maxQty.trans (congrArg (List.foldl min _) dual)).trans two.maxQty.symm)))
    cases aggregate <;> dsimp only [VectorTick.cell] <;> simp only [count, sum, least, greatest]

theorem aggregatesColumn_of {aggregate : Aggregate} {name : Bytes} {column : ColumnID}
    (read : aggregate = .count ∨ (measureOf name).value = columnValue column) :
    AggregatesColumn aggregate name column := by
  have alone (query : QueryStmt) : selectsAlone query.whereExpr = passes query.whereExpr :=
    funext (selectsAlone_eq query.whereExpr)
  constructor
  · intro query i item found calls events others same
    have aggregates := hasAggregates_calls found calls
    have one := absorbed_events aggregates events
    have two := absorbed_events aggregates others
    rw [executeEvents_cell found calls, executeEvents_cell found calls]
    rw [selectedValues, selectedValues, alone] at same
    rcases read with rfl | measured
    · have lengths : (events.filter (passes query.whereExpr)).length =
          (others.filter (passes query.whereExpr)).length := by
        simpa using congrArg List.length same
      dsimp only [VectorTick.cell]
      rw [one.count, two.count, lengths]
    · rw [← measured] at same
      rw [cell_determined one two aggregate same]
  · intro query i item found calls events few valid cell exactCell
    have all : ∀ event ∈ events, Event.Valid event :=
      fun event listed => Event.valid_of_validate (valid event listed)
    obtain ⟨_, totals⟩ :=
      totals_initial.loop (hasAggregates_calls found calls) (Nat.le_refl events.length)
      (by rw [List.nil_append]; exact all) (by rw [List.length_nil, Nat.zero_add]; exact few)
    rw [List.nil_append] at totals
    have absorbed := absorbed_events (hasAggregates_calls found calls) events
    have chosen : ∀ event ∈ events.filter (passes query.whereExpr), Event.Valid event :=
      fun event listed =>
      all event (List.mem_filter.mp listed).1
    rw [selectedValues, alone] at exactCell
    rw [executeEvents_cell found calls]
    -- The cell is that of a call on the measure's own name.
    let plain : SelectItem := ⟨some (.functionCall (nameBytes aggregate.upperName)
      [.columnRef (nameBytes (measureOf name).name) 1 1] 1 1), [], false⟩
    have upper : (nameBytes aggregate.upperName).map toUpper = nameBytes aggregate.upperName := by
      cases aggregate <;> decide
    have measure : measureOf (nameBytes (measureOf name).name) = measureOf name := by
      cases measureOf name <;> decide
    have named : Calls aggregate (nameBytes (measureOf name).name) plain :=
      ⟨_, 1, 1, [], 1, 1, upper, rfl⟩
    have called :=
      aggregateCell_calls named (batchLoop query events.length events ExecState.initial)
    rw [measure] at called
    have values : exactAggregate aggregate
        ((events.filter (passes query.whereExpr)).map (measureOf name).value) =
        some cell := by
      rcases read with rfl | measured
      · rw [← exactCell, exactAggregate, exactAggregate, List.length_map, List.length_map]
      · rw [measured]
        exact exactCell
    rw [← called, aggregateCell_exact totals absorbed chosen rfl upper (.inr rfl) values]

def callQuery (aggregate : Aggregate) (name : Bytes) : QueryStmt :=
  ⟨[⟨some (.functionCall (nameBytes aggregate.upperName) [.columnRef name 1 12] 1 8), [], false⟩],
    [], none, [], [], none,
    [], [], 0, 1, 1⟩

def dearEvent : CanonicalEvent := { unitEvent with priceTicks := 2 }

theorem columnValue_dear {column : ColumnID} (other : column ≠ .priceTicks) :
    columnValue column unitEvent = columnValue column dearEvent := by
  cases column <;> first | rfl | exact absurd rfl other

theorem aggregatesColumn_iff {aggregate : Aggregate} {name : Bytes} {column : ColumnID}
    (resolved : TypeChecker.resolveColumn name = some column) :
    AggregatesColumn aggregate name column ↔
      aggregate = .count ∨ column = .priceTicks ∨ name = nameBytes "quantity" := by
  constructor
  · intro aggregated
    by_contra neither
    simp only [not_or] at neither
    obtain ⟨notCount, notPrice, notQuantity⟩ := neither
    have calls : Calls aggregate name ⟨some (.functionCall (nameBytes aggregate.upperName)
        [.columnRef name 1 12] 1 8), [], false⟩ :=
      ⟨_, 1, 12, [], 1, 8, by cases aggregate <;> decide, rfl⟩
    have same :=
      aggregated.reads (callQuery aggregate name) 0 _ rfl calls [unitEvent] [dearEvent] (by
      change [columnValue column unitEvent] = [columnValue column dearEvent]
      rw [columnValue_dear notPrice])
    rw [executeEvents_cell rfl calls, executeEvents_cell rfl calls, measureOf,
      if_neg notQuantity] at same
    have unit : batchLoop (callQuery aggregate name) 1 [unitEvent] ExecState.initial =
        batchLoop (callQuery .count []) 1 [unitEvent] ExecState.initial := rfl
    have dear : batchLoop (callQuery aggregate name) 1 [dearEvent] ExecState.initial =
        batchLoop (callQuery .count []) 1 [dearEvent] ExecState.initial := rfl
    rw [List.length_singleton, List.length_singleton, unit, dear] at same
    revert same
    cases aggregate with
    | count => exact absurd rfl notCount
    | _ => decide
  · rintro (count | rfl | rfl)
    · exact aggregatesColumn_of (.inl count)
    · have notQuantity : name ≠ nameBytes "quantity" := by
        rintro rfl
        exact absurd resolved (by decide)
      exact aggregatesColumn_of (.inr (by rw [measureOf, if_neg notQuantity]; rfl))
    · have quantity : TypeChecker.resolveColumn (nameBytes "quantity") = some .quantity := by decide
      rw [quantity] at resolved
      cases resolved
      exact aggregatesColumn_of (.inr rfl)

/-- The built code loads the column by the name, and the interpreter its value. -/
structure LowersColumn (name : Bytes) (column : ColumnID) : Prop where
  lowered : ∀ line position : Nat, Builder.lowerExpression (.columnRef name line position) = (do
    let row ← Builder.rowIndex
    Builder.createLoadColumn (UInt32.ofNat column.index) row (Builder.columnType column))
  loaded : ∀ event : CanonicalEvent,
    ReferenceInterpreter.loadColumnValue (UInt32.ofNat column.index) event =
      UInt64.ofInt (columnValue column event)

theorem lowersColumn {name : Bytes} {column : ColumnID}
    (resolved : TypeChecker.resolveColumn name = some column) :
    LowersColumn name column := by
  have info := columnInfo_known resolved
  constructor
  · intro line position
    rw [Builder.lowerExpression, info]
  · intro event
    have loads := Evaluation.loadColumn_eq name event
    rwa [info, Evaluation.columnNamed, resolved] at loads

/-- A name stands for its column in every use of it. -/
structure MeansColumn (name : Bytes) (column : ColumnID) : Prop where
  projects : ProjectsColumn name column
  filters : ∀ op, FiltersColumn op name column
  aggregates : ∀ aggregate, AggregatesColumn aggregate name column
  lowers : LowersColumn name column

/-- Which names stand for their columns: in a projection, in a filter, in an aggregate, in the
built code, and in all uses. -/
theorem meansColumn_iff {name : Bytes} {column : ColumnID}
    (resolved : TypeChecker.resolveColumn name = some column) :
    (ProjectsColumn name column ↔ ProjectedName name) ∧
    (∀ op, FiltersColumn op name column ↔ FilteredName op name) ∧
    (∀ aggregate, AggregatesColumn aggregate name column ↔
      aggregate = .count ∨ column = .priceTicks ∨ name = nameBytes "quantity") ∧
    LowersColumn name column ∧
    (MeansColumn name column ↔ name = nameBytes "price_ticks" ∨ name = nameBytes "quantity") := by
  refine ⟨projectsColumn_iff resolved, fun op => filtersColumn_iff resolved, fun aggregate =>
    aggregatesColumn_iff resolved,
    lowersColumn resolved, fun means => ?_, fun spelled => ?_⟩
  · rcases (filtersColumn_iff resolved).mp (means.filters .lessEqual) with price |
      quantity | instrument | venue
    · exact .inl price
    · exact .inr quantity
    · exact absurd rfl instrument.2.1
    · cases venue.2
  · have projected : ProjectedName name := by
      rcases spelled with rfl | rfl <;> decide
    have aggregated : column = .priceTicks ∨ name = nameBytes "quantity" := by
      refine spelled.imp_left fun price => ?_
      have found : TypeChecker.resolveColumn (nameBytes "price_ticks") =
          some .priceTicks := by decide
      rw [price, found] at resolved
      exact (Option.some.inj resolved).symm
    exact {
      projects := (projectsColumn_iff resolved).mpr projected
      filters := fun op => (filtersColumn_iff resolved).mpr (spelled.imp_right .inl)
      aggregates := fun aggregate => (aggregatesColumn_iff resolved).mpr (.inr aggregated)
      lowers := lowersColumn resolved }

theorem meansColumn_quantity : MeansColumn (nameBytes "quantity") .quantity :=
  (meansColumn_iff (by decide)).2.2.2.2.mpr (.inr rfl)

/-- `PRICE` is the price for the checker and for the builder. The executor projects it to zero,
and selects every event by it. -/
theorem executeEvents_misses_alias :
    TypeChecker.resolveColumn (nameBytes "PRICE") = some .priceTicks ∧
    (executeEvents [sampleQuote]
      ⟨[⟨some (.columnRef (nameBytes "PRICE") 1 8), [], false⟩], nameBytes "t",
        some (.binaryOp .greater (.columnRef (nameBytes "PRICE") 1 27) (.literal 200 1 35) 1 33),
          [], [], none, [], [], 0, 1,
        1⟩).rows = [[0]] ∧
    columnValue .priceTicks sampleQuote = 100 := by decide

end VectorTick.VectorExecutor
