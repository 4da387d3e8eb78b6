import VectorTick.Execution.MatchCount

/-! The order of the events does not matter to a query that takes in all of them: one with
aggregates, or one without a limit.

The aggregates are settled by the bag of events that pass. Sums of machine words wrap, and
wrapping does not depend on the order either. -/

set_option autoImplicit false

namespace VectorTick.VectorExecutor

open Foundation Vts1 Query

section Absorbed

variable {seen others : List CanonicalEvent} {state other : ExecState}

theorem Absorbed.perm (absorbed : Absorbed seen state) (perm : seen.Perm others) :
    Absorbed others state where
  rows := absorbed.rows
  count := by rw [absorbed.count, perm.length_eq]
  sumPrice := absorbed.sumPrice.trans (perm.map priceWord).sum_eq
  minPrice := absorbed.minPrice.trans ((perm.map _).foldl_eq _)
  maxPrice := absorbed.maxPrice.trans ((perm.map _).foldl_eq _)
  sumQty := absorbed.sumQty.trans (perm.map quantityWord).sum_eq
  minQty := absorbed.minQty.trans ((perm.map _).foldl_eq _)
  maxQty := absorbed.maxQty.trans ((perm.map _).foldl_eq _)

theorem Absorbed.unique (one : Absorbed seen state) (two : Absorbed seen other) :
    { state with rowsMatched := 0 } = { other with rowsMatched := 0 } := by
  have rows := one.rows.trans two.rows.symm
  have count := one.count.trans two.count.symm
  have sumPrice : state.aggSumPrice = other.aggSumPrice := by
    simpa using congrArg UInt64.toInt64 (one.sumPrice.trans two.sumPrice.symm)
  have minPrice := Int64.toInt_inj.mp (one.minPrice.trans two.minPrice.symm)
  have maxPrice :=
    Int64.toInt_inj.mp (OrderDual.toDual_inj.mp (one.maxPrice.trans two.maxPrice.symm))
  have sumQty := one.sumQty.trans two.sumQty.symm
  have minQty := UInt32.toNat_inj.mp (Int.ofNat_inj.mp (one.minQty.trans two.minQty.symm))
  have maxQty :=
    UInt32.toNat_inj.mp
    (Int.ofNat_inj.mp (OrderDual.toDual_inj.mp (one.maxQty.trans two.maxQty.symm)))
  simp only [rows, count, sumPrice, minPrice, maxPrice, sumQty, minQty, maxQty]

theorem aggregateCell_congr (same : { state with rowsMatched := 0 } =
    { other with rowsMatched := 0 }) (item : SelectItem) :
    aggregateCell state item = aggregateCell other item := by
  change aggregateCell { state with rowsMatched := 0 } item =
    aggregateCell { other with rowsMatched := 0 } item
  rw [same]

end Absorbed

def Whole (query : QueryStmt) : Prop := hasAggregates query = true ∨ query.limit = 0

/-- Two results that differ in the order of their rows at most. -/
structure SameAnswer (one other : QueryResult) : Prop where
  columnNames : one.columnNames = other.columnNames
  rows : one.rows.Perm other.rows
  rowsScanned : one.rowsScanned = other.rowsScanned
  rowsMatched : one.rowsMatched = other.rowsMatched

section Results

variable {query : QueryStmt} {events others : List CanonicalEvent}

theorem rowsMatched_whole (whole : Whole query) (events : List CanonicalEvent) :
    (executeEvents events query).rowsMatched =
      UInt64.ofNat (events.countP (passes query.whereExpr)) := by
  have start : ¬ limitReached query.limit ExecState.initial.rows = true := by
    rw [limitReached_iff]
    rintro ⟨limited, few⟩
    exact limited (UInt64.toNat_inj.mp (Nat.le_zero.mp few))
  have unlimited : ¬ Limited query := by
    rintro ⟨plain, limited⟩
    rcases whole with aggregates | none
    · simp [aggregates] at plain
    · exact limited none
  obtain ⟨batches, stops⟩ := batchLoop_stops query (Nat.le_refl events.length) start
  have all := (stops.counts_all rfl).mpr fun behind => unlimited behind.1
  rw [executeEvents, stops.matched, all, selected_eq, ← List.countP_eq_length_filter,
    ExecState.initial, UInt64.zero_add]

theorem rows_aggregates (aggregates : hasAggregates query = true) (perm : events.Perm others) :
    (executeEvents events query).rows = (executeEvents others query).rows := by
  have one := (absorbed_events aggregates events).perm (perm.filter (passes query.whereExpr))
  have two := absorbed_events aggregates others
  have same := one.unique two
  simp only [executeEvents, if_pos aggregates, one.rows, two.rows, List.nil_append]
  congr 1
  apply List.map_congr_left
  intro item _
  exact aggregateCell_congr same item

theorem rows_unlimited (plain : hasAggregates query = false) (unlimited : query.limit = 0)
    (perm : events.Perm others) :
    (executeEvents events query).rows.Perm (executeEvents others query).rows := by
  rw [← executeInto_eq usedBuffers events, ← executeInto_eq usedBuffers others,
    executeInto_rows _ _ _ plain, executeInto_rows _ _ _ plain, capped, capped, if_pos unlimited,
    if_pos unlimited]
  exact (perm.filter _).map _

/-- A query over the same events in another order gives the same answer,
if it takes in all of them. -/
theorem executeEvents_perm (whole : Whole query) (perm : events.Perm others) :
    SameAnswer (executeEvents events query) (executeEvents others query) where
  columnNames := rfl
  rows := by
    cases aggregates : hasAggregates query with
    | true => rw [rows_aggregates aggregates perm]
    | false =>
      apply rows_unlimited aggregates _ perm
      rcases whole with other | none
      · simp [aggregates] at other
      · exact none
  rowsScanned := by
    change UInt64.ofNat events.length = UInt64.ofNat others.length
    rw [perm.length_eq]
  rowsMatched := by rw [rowsMatched_whole whole, rowsMatched_whole whole, perm.countP_eq]

end Results

theorem executeEvents_perm_quotes :
    SameAnswer (executeEvents [sampleQuote, { sampleQuote with quantity := 6 }]
      { largeQuery with limit := 0 })
      (executeEvents [{ sampleQuote with quantity := 6 }, sampleQuote]
        { largeQuery with limit := 0 }) :=
  executeEvents_perm (.inr rfl) (.swap _ _ [])

end VectorTick.VectorExecutor
