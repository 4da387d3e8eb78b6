import VectorTick.Execution.ExactAggregates

/-! Averages.

The sum of prices is signed and the count is not, so their quotient is a quotient of words: the
mean only of a sum that is not negative. -/

set_option autoImplicit false

namespace VectorTick

open Foundation Vts1 Query

theorem toNat_toUInt64_of_neg {word : Int64} (negative : word.toInt < 0) :
    (word.toUInt64.toNat : Int) = word.toInt + 2 ^ 64 := by
  have bits : word.toInt = word.toUInt64.toBitVec.toInt := rfl
  have size : word.toUInt64.toNat = word.toUInt64.toBitVec.toNat := rfl
  rw [bits, BitVec.toInt_eq_toNat_cond] at negative ⊢
  rw [size]
  split at negative
  · omega
  · rw [if_neg (by assumption)]
    omega

theorem toNat_toUInt64_of_nonneg {word : Int64} (positive : 0 ≤ word.toInt) :
    (word.toUInt64.toNat : Int) = word.toInt := by
  have bits : word.toInt = word.toUInt64.toBitVec.toInt := rfl
  have size : word.toUInt64.toNat = word.toUInt64.toBitVec.toNat := rfl
  have small := word.toUInt64.toBitVec.isLt
  rw [bits, BitVec.toInt_eq_toNat_cond] at positive ⊢
  rw [size]
  split at positive
  · rw [if_pos (by assumption)]
  · omega

theorem mixed_quotient_iff {dividend : Int64} {divisor : UInt64} (some : divisor ≠ 0)
    (small : (divisor.toNat : Int) ≤ dividend.toInt + 2 ^ 64) :
    ((dividend.toUInt64 / divisor).toNat : Int) = dividend.toInt.tdiv divisor.toNat ↔
      0 ≤ dividend.toInt := by
  have positive : 0 < divisor.toNat :=
    Nat.pos_of_ne_zero fun none => some (UInt64.toNat_inj.mp none)
  rw [UInt64.toNat_div]
  constructor
  · intro same
    by_contra negative
    have word := toNat_toUInt64_of_neg (Int.not_le.mp negative)
    have quotient : 0 < dividend.toUInt64.toNat / divisor.toNat := Nat.div_pos (by omega) positive
    have below : dividend.toInt.tdiv divisor.toNat ≤ 0 := by
      rw [← Int.neg_nonneg, ← Int.neg_tdiv]
      exact Int.tdiv_nonneg (by omega) (by omega)
    omega
  · intro positive
    rw [Int.natCast_ediv, toNat_toUInt64_of_nonneg positive, Int.tdiv_eq_ediv_of_nonneg positive]

namespace VectorExecutor

def mean (values : List Int) : Int := values.sum.tdiv values.length

def average (state : ExecState) : Measure → UInt64
  | .price => state.aggSumPrice.toUInt64 / state.aggCount
  | .quantity => state.aggSumQty / state.aggCount

section Cells

variable {seen : List CanonicalEvent} {state : ExecState} (totals : Totals seen state)

include totals

theorem aggregateCell_average (present : seen ≠ []) {item : SelectItem} {name : Bytes}
    {args : List Expression}
    {line column : Nat} (call : item.expr = some (.functionCall name args line column))
    (named : name.map toUpper = nameBytes Aggregate.avg.upperName) {measure : Measure}
    (argument : argumentName args = nameBytes measure.name) :
    aggregateCell state item = (average state measure).toNat := by
  have counted : state.aggCount ≠ 0 := UInt64.pos_iff_ne_zero.mp (totals.counted.mpr present)
  have other : nameBytes Aggregate.avg.upperName ≠ nameBytes "COUNT" ∧
      nameBytes Aggregate.avg.upperName ≠ nameBytes "SUM" ∧
        nameBytes Aggregate.avg.upperName ≠ nameBytes "MIN" ∧
      nameBytes Aggregate.avg.upperName ≠ nameBytes "MAX" := by
    decide
  have notQuantity : nameBytes Measure.price.name ≠ nameBytes "quantity" := by decide
  unfold aggregateCell
  rw [call]
  dsimp only
  rw [named, argument, if_neg other.1, if_neg other.2.1, if_neg other.2.2.1, if_neg other.2.2.2,
    if_pos (by rfl), if_neg counted]
  cases measure with
  | price =>
    rw [if_neg notQuantity]
    rfl
  | quantity =>
    rw [if_pos (by rfl)]
    rfl

theorem aggregateCell_mean_iff (valid : ∀ event ∈ seen, Event.Valid event)
    (few : seen.length ≤ SegmentConfig.maxRowsPerSegment) (present : seen ≠ [])
    {item : SelectItem} {name : Bytes}
    {args : List Expression} {line column : Nat}
    (call : item.expr = some (.functionCall name args line column))
    (named : name.map toUpper = nameBytes Aggregate.avg.upperName) {measure : Measure}
    (argument : argumentName args = nameBytes measure.name) :
    aggregateCell state item = mean (seen.map measure.value) ↔
      0 ≤ (seen.map measure.value).sum := by
  have counted : state.aggCount ≠ 0 := UInt64.pos_iff_ne_zero.mp (totals.counted.mpr present)
  rw [SegmentConfig.maxRowsPerSegment] at few
  rw [aggregateCell_average totals present call named argument, mean,
    List.length_map, ← totals.count]
  cases measure with
  | price =>
    have sum : (seen.map Measure.price.value).sum = state.aggSumPrice.toInt := totals.sumPrice.symm
    have low := (price_sum_bounds valid).1
    have total := totals.sumPrice
    have count := totals.count
    rw [sum]
    exact mixed_quotient_iff counted (by omega)
  | quantity =>
    have sum : (seen.map Measure.quantity.value).sum = (state.aggSumQty.toNat : Int) := by
      rw [totals.sumQty, Nat.cast_list_sum, List.map_map]
      rfl
    rw [sum]
    refine iff_of_true ?_ (Int.natCast_nonneg _)
    rw [average, UInt64.toNat_div, Int.natCast_ediv,
      Int.tdiv_eq_ediv_of_nonneg (Int.natCast_nonneg _)]

end Cells

/-- Each average of a segment of valid events is the mean over the selected rows, truncated toward
zero, exactly if their values do not sum up to less than zero. -/
theorem executeEvents_average_iff (events : List CanonicalEvent) (query : QueryStmt)
    (few : events.length ≤ SegmentConfig.maxRowsPerSegment)
    (valid : ∀ event ∈ events, Event.validate event = .ok ())
    (aggregates : hasAggregates query = true)
    (present : events.filter (selectsAlone query.whereExpr) ≠ []) :
    ∃ row, (executeEvents events query).rows = [row] ∧
      ∀ (i : Nat) (item : SelectItem) (name : Bytes) (args : List Expression)
      (line column : Nat) (measure : Measure),
        query.projections[i]? = some item → item.expr = some (.functionCall name args line column) →
        name.map toUpper = nameBytes Aggregate.avg.upperName →
          argumentName args = nameBytes measure.name →
        (row[i]? = some (mean ((events.filter (selectsAlone query.whereExpr)).map measure.value)) ↔
          0 ≤ ((events.filter (selectsAlone query.whereExpr)).map measure.value).sum) := by
  have all : ∀ event ∈ events, Event.Valid event :=
    fun event listed => Event.valid_of_validate (valid event listed)
  obtain ⟨-, totals⟩ := totals_initial.loop aggregates (Nat.le_refl events.length)
    (by rw [List.nil_append]; exact all) (by rw [List.length_nil, Nat.zero_add]; exact few)
  rw [List.nil_append] at totals
  have absorbed := absorbed_events aggregates events
  rw [funext (selectsAlone_eq query.whereExpr)] at present ⊢
  have chosen : ∀ event ∈ events.filter (passes query.whereExpr), Event.Valid event :=
    fun event listed =>
    all event (List.mem_filter.mp listed).1
  have fewer := (List.length_filter_le (passes query.whereExpr) events).trans few
  refine ⟨query.projections.map
    (aggregateCell (batchLoop query events.length events ExecState.initial)), ?_, ?_⟩
  · rw [executeEvents, aggregates, if_pos rfl, absorbed.rows, List.nil_append]
  · intro i item name args line column measure found call named argument
    rw [List.getElem?_map, found, Option.map_some, Option.some_inj]
    exact aggregateCell_mean_iff totals chosen fewer present call named argument

/-- `SELECT AVG(quantity) FROM trades WHERE quantity > 5` -/
def averageQuery : QueryStmt :=
  ⟨[⟨some (.functionCall (nameBytes "AVG") [.columnRef (nameBytes "quantity") 1 12] 1 8), [],
    false⟩], nameBytes "trades",
    some largeFilter, [], [], none, [], [], 0, 1, 1⟩

theorem executeEvents_average_quantity : ∃ row,
    (executeEvents [sampleQuote, sampleQuote] averageQuery).rows = [row] ∧
    (row[0]? = some (mean [10, 10]) ↔ (0 : Int) ≤ [(10 : Int), 10].sum) := by
  have accepted : ∀ event ∈ [sampleQuote, sampleQuote], Event.validate event = .ok () := by
    intro event listed
    rcases List.mem_pair.mp listed with rfl | rfl <;> rfl
  have values : ([sampleQuote, sampleQuote].filter (selectsAlone averageQuery.whereExpr)).map
      Measure.quantity.value =
      [10, 10] := by decide
  obtain ⟨row, rows, cells⟩ :=
    executeEvents_average_iff [sampleQuote, sampleQuote] averageQuery (by decide) accepted rfl
    (fun none => by rw [none] at values; exact List.cons_ne_nil _ _ values.symm)
  have cell := cells 0 _ _ _ _ _ .quantity rfl rfl (by decide) rfl
  rw [values] at cell
  exact ⟨row, rows, cell⟩

def negativeQuote : CanonicalEvent := { sampleQuote with priceTicks := -1 }

def averagePriceQuery : QueryStmt :=
  ⟨[⟨some (.functionCall (nameBytes "AVG")
    [.columnRef (nameBytes "price_ticks") 1 12] 1 8), [], false⟩],
    nameBytes "trades", none, [], [], none, [], [], 0, 1, 1⟩

/-- The average of one valid price of minus one is reported as the greatest word. -/
theorem average_of_negative : Event.validate negativeQuote = .ok () ∧
    mean ([negativeQuote].map Measure.price.value) = -1 ∧
    (executeEvents [negativeQuote] averagePriceQuery).rows = [[18446744073709551615]] := by
  refine ⟨rfl, by decide, by decide⟩

end VectorExecutor

end VectorTick
