import VectorTick.Execution.Agreement
import VectorTick.Execution.Batches

/-! Aggregates over valid events are exact.

The limits on prices and quantities times the largest number of rows stay within the types, so every
addition of a run is the addition of integers. The trace lists the additions with their operands.
-/

set_option autoImplicit false

namespace VectorTick

open Foundation Vts1 Query

/-- An addition of machine words. -/
inductive Addition where
  | signed (left right : Int64)
  | unsigned (left right : UInt64)
  deriving DecidableEq, Repr

def Addition.Exact : Addition → Prop
  | signed left right => (left + right).toInt = left.toInt + right.toInt
  | unsigned left right => (left + right).toNat = left.toNat + right.toNat

theorem Addition.signed_exact {left right : Int64} (low : -2 ^ 63 ≤ left.toInt + right.toInt)
    (high : left.toInt + right.toInt < 2 ^ 63) : (Addition.signed left right).Exact := by
  change (left + right).toInt = _
  rw [Int64.toInt_add]
  exact Int.bmod_eq_of_le (by omega) (by omega)

theorem Addition.unsigned_exact {left right : UInt64} (high : left.toNat + right.toNat < 2 ^ 64) :
    (Addition.unsigned left right).Exact := by
  change (left + right).toNat = _
  rw [UInt64.toNat_add, Nat.mod_eq_of_lt high]

def signedSteps : Int64 → List Int64 → List Addition
  | _, [] => []
  | total, value :: rest => .signed total value :: signedSteps (total + value) rest

def unsignedSteps : UInt64 → List UInt32 → List Addition
  | _, [] => []
  | total, value :: rest =>
    .unsigned total value.toUInt64 :: unsignedSteps (total + value.toUInt64) rest

/-- Values of at most `bound` add up exactly as long as there is room for that many of them. -/
theorem signedSteps_exact {bound : Int} {values : List Int64} {total : Int64}
    (small : ∀ value ∈ values, -bound ≤ value.toInt ∧ value.toInt ≤ bound)
    (low : -2 ^ 63 ≤ total.toInt - values.length * bound)
    (high : total.toInt + values.length * bound < 2 ^ 63) :
    (∀ addition ∈ signedSteps total values, addition.Exact) ∧
      (values.foldl (fun total value => total + value) total).toInt =
        total.toInt + (values.map Int64.toInt).sum := by
  induction values generalizing total with
  | nil => simp [signedSteps]
  | cons value rest ih =>
    obtain ⟨below, above⟩ := small value List.mem_cons_self
    have positive : 0 ≤ rest.length * bound := Int.mul_nonneg (Int.natCast_nonneg _) (by omega)
    rw [List.length_cons, Int.natCast_add, Int.natCast_one, Int.add_mul, Int.one_mul] at low high
    have first : (Addition.signed total value).Exact := Addition.signed_exact (by omega) (by omega)
    have next : (total + value).toInt = total.toInt + value.toInt := first
    obtain ⟨others, sum⟩ :=
      @ih (total + value) (fun other listed => small other (List.mem_cons_of_mem _ listed))
      (by rw [next]; omega) (by rw [next]; omega)
    constructor
    · intro addition listed
      rcases List.mem_cons.mp listed with rfl | later
      · exact first
      · exact others addition later
    · rw [List.foldl_cons, sum, next, List.map_cons, List.sum_cons, Int.add_assoc]

theorem unsignedSteps_exact {bound : Nat} {values : List UInt32} {total : UInt64}
    (small : ∀ value ∈ values, value.toNat ≤ bound)
    (high : total.toNat + values.length * bound < 2 ^ 64) :
    (∀ addition ∈ unsignedSteps total values, addition.Exact) ∧
      (values.foldl (fun total value => total + value.toUInt64) total).toNat =
        total.toNat + (values.map UInt32.toNat).sum := by
  induction values generalizing total with
  | nil => simp [unsignedSteps]
  | cons value rest ih =>
    have above := small value List.mem_cons_self
    rw [List.length_cons, Nat.add_mul, Nat.one_mul] at high
    have first : (Addition.unsigned total value.toUInt64).Exact :=
      Addition.unsigned_exact (by rw [UInt32.toNat_toUInt64]; omega)
    have next : (total + value.toUInt64).toNat = total.toNat + value.toNat := first
    obtain ⟨others, sum⟩ :=
      @ih (total + value.toUInt64) (fun other listed => small other (List.mem_cons_of_mem _ listed))
      (by rw [next]; omega)
    constructor
    · intro addition listed
      rcases List.mem_cons.mp listed with rfl | later
      · exact first
      · exact others addition later
    · rw [List.foldl_cons, sum, next, List.map_cons, List.sum_cons, Nat.add_assoc]

namespace VectorExecutor

/-- The additions of one batch: the two counts, the sums of the kernels and those of the batches. -/
def batchAdditions (batch : ColumnBatch) (outSel : SelectionVector) (state : ExecState) :
    List Addition :=
  [.unsigned state.rowsMatched (UInt64.ofNat outSel.count),
    .unsigned state.aggCount (UInt64.ofNat outSel.count)] ++
    if outSel.count > 0 then
      signedSteps 0
        (SimdDispatcher.visitedValues 0 batch.priceTicks (some outSel.indices) outSel.count) ++
        [.signed state.aggSumPrice
          (SimdDispatcher.sumI64 batch.priceTicks (some outSel.indices) outSel.count)] ++
        unsignedSteps 0
          (SimdDispatcher.visitedValues 0 batch.quantity (some outSel.indices) outSel.count) ++
        [.unsigned state.aggSumQty
          (SimdDispatcher.sumU32 batch.quantity (some outSel.indices) outSel.count)]
    else []

def additionsFrom (query : QueryStmt) : Nat → List CanonicalEvent → ExecState → List Addition
  | 0, _, _ => []
  | fuel + 1, events, state =>
    if events = [] then []
    else
      let current := events.take SelectionVector.maxBatchSize
      let batch := loadBatchFromEvents current
      let outSel := selectBatch query.whereExpr current
      batchAdditions batch outSel state ++
        additionsFrom query fuel (events.drop SelectionVector.maxBatchSize)
          (aggregateBatch batch outSel
            { state with rowsMatched := state.rowsMatched + UInt64.ofNat outSel.count })

def additions (events : List CanonicalEvent) (query : QueryStmt) : List Addition :=
  additionsFrom query events.length events ExecState.initial

/-- The running counts and sums are those of the events taken in. -/
structure Totals (seen : List CanonicalEvent) (state : ExecState) : Prop where
  rowsMatched : state.rowsMatched.toNat = seen.length
  count : state.aggCount.toNat = seen.length
  sumPrice : state.aggSumPrice.toInt = (seen.map fun event => event.priceTicks.toInt).sum
  sumQty : state.aggSumQty.toNat = (seen.map fun event => event.quantity.toNat).sum

theorem totals_initial : Totals [] ExecState.initial where
  rowsMatched := rfl
  count := rfl
  sumPrice := rfl
  sumQty := rfl

theorem price_bounds {event : CanonicalEvent} (valid : Event.Valid event) :
    -1000000000000 ≤ event.priceTicks.toInt ∧ event.priceTicks.toInt ≤ 1000000000000 :=
  ⟨Int64.le_iff_toInt_le.mp valid.priceLow, Int64.le_iff_toInt_le.mp valid.priceHigh⟩

theorem quantity_bound {event : CanonicalEvent} (valid : Event.Valid event) :
    event.quantity.toNat ≤ 1000000000 :=
  UInt32.le_iff_toNat_le.mp valid.quantity

theorem price_sum_bounds {events : List CanonicalEvent}
    (valid : ∀ event ∈ events, Event.Valid event) :
    -(events.length * 1000000000000 : Int) ≤ (events.map fun event => event.priceTicks.toInt).sum ∧
      (events.map fun event => event.priceTicks.toInt).sum ≤ events.length * 1000000000000 := by
  induction events with
  | nil => simp
  | cons event rest ih =>
    have one := price_bounds (valid event List.mem_cons_self)
    have others := ih fun other listed => valid other (List.mem_cons_of_mem _ listed)
    rw [List.map_cons, List.sum_cons, List.length_cons]
    omega

theorem quantity_sum_bound {events : List CanonicalEvent}
    (valid : ∀ event ∈ events, Event.Valid event) :
    (events.map fun event => event.quantity.toNat).sum ≤ events.length * 1000000000 := by
  induction events with
  | nil => simp
  | cons event rest ih =>
    have one := quantity_bound (valid event List.mem_cons_self)
    have others := ih fun other listed => valid other (List.mem_cons_of_mem _ listed)
    rw [List.map_cons, List.sum_cons, List.length_cons]
    omega

/-- The kernels sum the selected rows of a batch exactly. -/
structure KernelSums (batch : ColumnBatch) (sel : SelectionVector)
    (chosen : List CanonicalEvent) : Prop where
  priceSteps : ∀ addition ∈
    signedSteps 0 (SimdDispatcher.visitedValues 0 batch.priceTicks (some sel.indices) sel.count),
    addition.Exact
  price : (SimdDispatcher.sumI64 batch.priceTicks (some sel.indices) sel.count).toInt =
    (chosen.map fun event => event.priceTicks.toInt).sum
  quantitySteps : ∀ addition ∈
    unsignedSteps 0 (SimdDispatcher.visitedValues 0 batch.quantity (some sel.indices) sel.count),
    addition.Exact
  quantity : (SimdDispatcher.sumU32 batch.quantity (some sel.indices) sel.count).toNat =
    (chosen.map fun event => event.quantity.toNat).sum

theorem kernelSums (filterExpr : Option Expression) {events : List CanonicalEvent}
    (short : events.length ≤ SelectionVector.maxBatchSize)
    (valid : ∀ event ∈ events, Event.Valid event) :
    KernelSums (loadBatchFromEvents events) (selectBatch filterExpr events)
    (events.filter (passes filterExpr)) := by
  have prices := visitedValues_eq 0 (·.priceTicks) filterExpr short
  have quantities := visitedValues_eq 0 (·.quantity) filterExpr short
  have fewer := List.length_filter_le (passes filterExpr) events
  have chosenValid : ∀ event ∈ events.filter (passes filterExpr), Event.Valid event :=
    fun event listed =>
    valid event (List.mem_filter.mp listed).1
  generalize events.filter (passes filterExpr) = chosen at *
  generalize selectBatch filterExpr events = sel at *
  rw [SelectionVector.maxBatchSize] at short
  obtain ⟨priceSteps, priceSum⟩ := @signedSteps_exact 1000000000000 (chosen.map (·.priceTicks)) 0
    (by
      intro value listed
      obtain ⟨event, member, rfl⟩ := List.mem_map.mp listed
      exact price_bounds (chosenValid event member))
    (by rw [List.length_map, Int64.toInt_zero]; omega)
      (by rw [List.length_map, Int64.toInt_zero]; omega)
  obtain ⟨quantitySteps, quantitySum⟩ := @unsignedSteps_exact 1000000000 (chosen.map (·.quantity)) 0
    (by
      intro value listed
      obtain ⟨event, member, rfl⟩ := List.mem_map.mp listed
      exact quantity_bound (chosenValid event member))
    (by rw [List.length_map, UInt64.toNat_zero]; omega)
  rw [Int64.toInt_zero, Int.zero_add, List.map_map] at priceSum
  rw [UInt64.toNat_zero, Nat.zero_add, List.map_map] at quantitySum
  exact {
    priceSteps := fun addition listed => priceSteps addition (prices ▸ listed)
    price := (congrArg
      (fun values : List Int64 => (values.foldl (· + ·) 0).toInt) prices).trans priceSum
    quantitySteps := fun addition listed => quantitySteps addition (quantities ▸ listed)
    quantity := (congrArg (fun values : List UInt32 =>
      (values.foldl (fun (total : UInt64) (value : UInt32) => total + value.toUInt64) 0).toNat)
        quantities).trans quantitySum }

theorem Totals.batch {seen events : List CanonicalEvent} {state : ExecState}
    (totals : Totals seen state)
    (filterExpr : Option Expression) (short : events.length ≤ SelectionVector.maxBatchSize)
    (valid : ∀ event ∈ seen ++ events, Event.Valid event)
    (few : seen.length + events.length ≤ SegmentConfig.maxRowsPerSegment) :
    (∀ addition ∈ batchAdditions (loadBatchFromEvents events) (selectBatch filterExpr events) state,
      addition.Exact) ∧
      Totals (seen ++ events.filter (passes filterExpr))
        (aggregateBatch (loadBatchFromEvents events) (selectBatch filterExpr events)
          { state with rowsMatched := state.rowsMatched +
            UInt64.ofNat (selectBatch filterExpr events).count }) := by
  have counted := count_selectBatch filterExpr short
  have fewer := List.length_filter_le (passes filterExpr) events
  have seenValid : ∀ event ∈ seen, Event.Valid event :=
    fun event listed => valid event (List.mem_append_left _ listed)
  have newValid : ∀ event ∈ events, Event.Valid event :=
    fun event listed => valid event (List.mem_append_right _ listed)
  have sums := kernelSums filterExpr short newValid
  have chosenValid : ∀ event ∈ events.filter (passes filterExpr), Event.Valid event :=
    fun event listed =>
    newValid event (List.mem_filter.mp listed).1
  rw [SegmentConfig.maxRowsPerSegment] at few
  unfold batchAdditions aggregateBatch
  generalize events.filter (passes filterExpr) = chosen at *
  generalize selectBatch filterExpr events = sel at *
  have number : (UInt64.ofNat sel.count).toNat = chosen.length := by
    rw [counted, UInt64.toNat_ofNat', Nat.mod_eq_of_lt (by omega)]
  have matched : (Addition.unsigned state.rowsMatched (UInt64.ofNat sel.count)).Exact :=
    Addition.unsigned_exact (by rw [totals.rowsMatched, number]; omega)
  have count : (Addition.unsigned state.aggCount (UInt64.ofNat sel.count)).Exact :=
    Addition.unsigned_exact (by rw [totals.count, number]; omega)
  have seenPrices := price_sum_bounds seenValid
  have newPrices := price_sum_bounds chosenValid
  have seenQuantities := quantity_sum_bound seenValid
  have newQuantities := quantity_sum_bound chosenValid
  have price : (Addition.signed state.aggSumPrice
      (SimdDispatcher.sumI64 (loadBatchFromEvents events).priceTicks
        (some sel.indices) sel.count)).Exact :=
    Addition.signed_exact (by rw [sums.price, totals.sumPrice]; omega)
      (by rw [sums.price, totals.sumPrice]; omega)
  have quantity : (Addition.unsigned state.aggSumQty
      (SimdDispatcher.sumU32 (loadBatchFromEvents events).quantity
        (some sel.indices) sel.count)).Exact :=
    Addition.unsigned_exact (by rw [sums.quantity, totals.sumQty]; omega)
  have rows : (seen ++ chosen).length = seen.length + chosen.length := List.length_append
  have matchedNow : (state.rowsMatched + UInt64.ofNat sel.count).toNat =
      (seen ++ chosen).length := by
    rw [rows, ← totals.rowsMatched, ← number]
    exact matched
  have countNow : (state.aggCount + UInt64.ofNat sel.count).toNat = (seen ++ chosen).length := by
    rw [rows, ← totals.count, ← number]
    exact count
  by_cases some : sel.count > 0
  · rw [if_pos some]
    constructor
    · intro addition listed
      simp only [List.mem_append, List.mem_cons, List.not_mem_nil, or_false] at listed
      rcases listed with (rfl | rfl) | ((step | rfl) | step) | rfl
      · exact matched
      · exact count
      · exact sums.priceSteps addition step
      · exact price
      · exact sums.quantitySteps addition step
      · exact quantity
    · rw [if_pos some]
      exact {
        rowsMatched := matchedNow
        count := countNow
        sumPrice := by
          rw [List.map_append, List.sum_append, ← totals.sumPrice, ← sums.price]
          exact price
        sumQty := by
          rw [List.map_append, List.sum_append, ← totals.sumQty, ← sums.quantity]
          exact quantity }
  · have none : chosen = [] := List.length_eq_zero_iff.mp (by omega)
    rw [if_neg some, if_neg some, List.append_nil]
    constructor
    · intro addition listed
      rcases List.mem_pair.mp listed with rfl | rfl
      · exact matched
      · exact count
    · subst none
      rw [List.append_nil] at matchedNow countNow ⊢
      exact { totals with rowsMatched := matchedNow, count := countNow }

theorem Totals.loop {query : QueryStmt} (aggregates : hasAggregates query = true) {fuel : Nat}
    {seen events : List CanonicalEvent} {state : ExecState} (totals : Totals seen state)
    (enough : events.length ≤ fuel)
    (valid : ∀ event ∈ seen ++ events, Event.Valid event)
    (few : seen.length + events.length ≤ SegmentConfig.maxRowsPerSegment) :
    (∀ addition ∈ additionsFrom query fuel events state, addition.Exact) ∧
      Totals (seen ++ events.filter (passes query.whereExpr))
      (batchLoop query fuel events state) := by
  induction fuel generalizing seen events state with
  | zero =>
    have none : events = [] := List.length_eq_zero_iff.mp (by omega)
    subst none
    simpa [additionsFrom, batchLoop] using totals
  | succ fuel ih =>
    unfold additionsFrom batchLoop
    by_cases none : events = []
    · subst none
      simpa using totals
    have positive := List.length_pos_iff.mpr none
    have cut := List.take_append_drop SelectionVector.maxBatchSize events
    have lengths : (events.take SelectionVector.maxBatchSize).length +
        (events.drop SelectionVector.maxBatchSize).length =
        events.length := by rw [← List.length_append, cut]
    have fewer :=
      List.length_filter_le (passes query.whereExpr) (events.take SelectionVector.maxBatchSize)
    have current : ∀ event ∈ seen ++ events.take SelectionVector.maxBatchSize,
        Event.Valid event := by
      intro event listed
      rcases List.mem_append.mp listed with earlier | now
      · exact valid event (List.mem_append_left _ earlier)
      · exact valid event (List.mem_append_right _ (List.mem_of_mem_take now))
    have later : ∀ event ∈
        (seen ++ (events.take SelectionVector.maxBatchSize).filter (passes query.whereExpr)) ++
        events.drop SelectionVector.maxBatchSize, Event.Valid event := by
      intro event listed
      rcases List.mem_append.mp listed with done | ahead
      · rcases List.mem_append.mp done with earlier | now
        · exact valid event (List.mem_append_left _ earlier)
        · exact current event (List.mem_append_right _ (List.mem_filter.mp now).1)
      · exact valid event (List.mem_append_right _ (List.mem_of_mem_drop ahead))
    obtain ⟨exact_, next⟩ :=
      totals.batch query.whereExpr (List.length_take_le _ _) current (by omega)
    obtain ⟨others, whole⟩ :=
      ih next (by rw [List.length_drop, SelectionVector.maxBatchSize]; omega) later
      (by rw [List.length_append]; omega)
    rw [if_neg none, if_neg none]
    dsimp only
    rw [if_pos aggregates]
    constructor
    · intro addition listed
      rcases List.mem_append.mp listed with now | ahead
      · exact exact_ addition now
      · exact others addition ahead
    · rw [List.append_assoc, ← List.filter_append, cut] at whole
      exact whole

/-- The aggregate of integers, zero where there are none; an average need not be one. -/
def exactAggregate : Aggregate → List Int → Option Int
  | .count, values => some values.length
  | .sum, values => some values.sum
  | .min, values => some (values.min?.getD 0)
  | .max, values => some (values.max?.getD 0)
  | .avg, _ => none

theorem min?_of_fold {values : List Int} {top : Int} (some : values ≠ [])
    (below : ∀ value ∈ values, value ≤ top) :
    values.min?.getD 0 = values.foldl min top := by
  obtain ⟨member, least⟩ := foldl_min_spec some below
  rw [List.min?_eq_some_iff.mpr ⟨member, least⟩, Option.getD_some]

theorem max?_of_fold {values : List Int} {bottom : Int} (some : values ≠ [])
    (above : ∀ value ∈ values, bottom ≤ value)
    {greatest : Int} (fold : (OrderDual.toDual greatest : Down) =
      (values.map OrderDual.toDual).foldl min (OrderDual.toDual bottom)) :
      values.max?.getD 0 = greatest := by
  have someDual : values.map (OrderDual.toDual : Int → Down) ≠ [] := by simpa using some
  have aboveDual : ∀ value ∈ values.map (OrderDual.toDual : Int → Down), value ≤
      OrderDual.toDual bottom := by
    intro value listed
    obtain ⟨value, member, rfl⟩ := List.mem_map.mp listed
    exact OrderDual.toDual_le_toDual.mpr (above value member)
  have spec := foldl_min_spec someDual aboveDual
  rw [← fold] at spec
  obtain ⟨value, member, same⟩ := List.mem_map.mp spec.1
  cases same
  rw [List.max?_eq_some_iff.mpr ⟨member, fun other listed =>
    OrderDual.toDual_le_toDual.mp (spec.2 _ (List.mem_map_of_mem listed))⟩, Option.getD_some]

section Cells

variable {seen : List CanonicalEvent} {state : ExecState} (totals : Totals seen state)
  (absorbed : Absorbed seen state)

include totals

theorem Totals.counted : state.aggCount > 0 ↔ seen ≠ [] := by
  rw [gt_iff_lt, UInt64.lt_iff_toNat_lt, totals.count, UInt64.toNat_zero, List.length_pos_iff]

include absorbed

theorem least_price : (if state.aggCount > 0 then state.aggMinPrice else 0).toInt =
    (seen.map Measure.price.value).min?.getD 0 := by
  split
  · rename_i counted
    have some : seen.map Measure.price.value ≠ [] := by simpa using totals.counted.mp counted
    rw [@min?_of_fold _ (2 ^ 63 - 1) some]
    · exact absorbed.minPrice
    · intro value listed
      obtain ⟨event, _, rfl⟩ := List.mem_map.mp listed
      exact Int.le_sub_one_of_lt event.priceTicks.toInt_lt
  · rename_i nothing
    have none : seen = [] := not_not.mp (mt totals.counted.mpr nothing)
    subst none
    rfl

theorem least_quantity : ((if state.aggCount > 0 then state.aggMinQty else 0).toNat : Int) =
    (seen.map Measure.quantity.value).min?.getD 0 := by
  split
  · rename_i counted
    have some : seen.map Measure.quantity.value ≠ [] := by simpa using totals.counted.mp counted
    rw [@min?_of_fold _ (2 ^ 32 - 1) some]
    · exact absorbed.minQty
    · intro value listed
      obtain ⟨event, _, rfl⟩ := List.mem_map.mp listed
      have bound := event.quantity.toNat_lt
      change (event.quantity.toNat : Int) ≤ _
      omega
  · rename_i nothing
    have none : seen = [] := not_not.mp (mt totals.counted.mpr nothing)
    subst none
    rfl

theorem greatest_quantity : ((if state.aggCount > 0 then state.aggMaxQty else 0).toNat : Int) =
    (seen.map Measure.quantity.value).max?.getD 0 := by
  split
  · rename_i counted
    have some : seen.map Measure.quantity.value ≠ [] := by simpa using totals.counted.mp counted
    rw [@max?_of_fold _ 0 some _ _ (by rw [List.map_map]; exact absorbed.maxQty)]
    intro value listed
    obtain ⟨event, _, rfl⟩ := List.mem_map.mp listed
    exact Int.natCast_nonneg _
  · rename_i nothing
    have none : seen = [] := not_not.mp (mt totals.counted.mpr nothing)
    subst none
    rfl

theorem greatest_price (valid : ∀ event ∈ seen, Event.Valid event) :
    (if state.aggCount > 0 then state.aggMaxPrice else 0).toInt =
      (seen.map Measure.price.value).max?.getD 0 := by
  split
  · rename_i counted
    have some : seen.map Measure.price.value ≠ [] := by simpa using totals.counted.mp counted
    rw [@max?_of_fold _ (-(2 ^ 63 - 1)) some _ _ (by rw [List.map_map]; exact absorbed.maxPrice)]
    intro value listed
    obtain ⟨event, member, rfl⟩ := List.mem_map.mp listed
    have low := (price_bounds (valid event member)).1
    change _ ≤ event.priceTicks.toInt
    omega
  · rename_i nothing
    have none : seen = [] := not_not.mp (mt totals.counted.mpr nothing)
    subst none
    rfl

theorem aggregateCell_exact (valid : ∀ event ∈ seen, Event.Valid event)
    {item : SelectItem} {name : Bytes}
    {args : List Expression} {line column : Nat}
    (call : item.expr = some (.functionCall name args line column))
    {aggregate : Aggregate} (named : name.map toUpper = nameBytes aggregate.upperName)
    {measure : Measure}
    (argument : aggregate = .count ∨ argumentName args = nameBytes measure.name) {cell : Int}
    (exact_ : exactAggregate aggregate (seen.map measure.value) = some cell) :
    aggregateCell state item = cell := by
  have notSum : nameBytes Aggregate.sum.upperName ≠ nameBytes "COUNT" := by decide
  have notMin : nameBytes Aggregate.min.upperName ≠ nameBytes "COUNT" ∧
      nameBytes Aggregate.min.upperName ≠ nameBytes "SUM" := by decide
  have notMax : nameBytes Aggregate.max.upperName ≠ nameBytes "COUNT" ∧
      nameBytes Aggregate.max.upperName ≠ nameBytes "SUM" ∧
        nameBytes Aggregate.max.upperName ≠ nameBytes "MIN" := by
    decide
  have notQuantity : nameBytes Measure.price.name ≠ nameBytes "quantity" := by decide
  unfold aggregateCell
  rw [call]
  dsimp only
  rw [named]
  cases aggregate with
  | count =>
    cases exact_
    rw [if_pos (by rfl), List.length_map, totals.count]
  | sum =>
    cases exact_
    have known := argument.resolve_left (by decide)
    rw [known, if_neg notSum, if_pos (by rfl)]
    cases measure with
    | price =>
      rw [if_neg notQuantity, totals.sumPrice]
      rfl
    | quantity =>
      rw [if_pos (by rfl), totals.sumQty, Nat.cast_list_sum, List.map_map]
      rfl
  | min =>
    cases exact_
    have known := argument.resolve_left (by decide)
    rw [known, if_neg notMin.1, if_neg notMin.2, if_pos (by rfl)]
    cases measure with
    | price =>
      rw [if_neg notQuantity]
      exact least_price totals absorbed
    | quantity =>
      rw [if_pos (by rfl)]
      exact least_quantity totals absorbed
  | max =>
    cases exact_
    have known := argument.resolve_left (by decide)
    rw [known, if_neg notMax.1, if_neg notMax.2.1, if_neg notMax.2.2, if_pos (by rfl)]
    cases measure with
    | price =>
      rw [if_neg notQuantity]
      exact greatest_price totals absorbed valid
    | quantity =>
      rw [if_pos (by rfl)]
      exact greatest_quantity totals absorbed
  | avg => cases exact_

end Cells

/-- The aggregates of a segment of valid events are exact, and no addition on the way overflows. -/
theorem executeEvents_exact (events : List CanonicalEvent) (query : QueryStmt)
    (few : events.length ≤ SegmentConfig.maxRowsPerSegment)
    (valid : ∀ event ∈ events, Event.validate event = .ok ())
    (aggregates : hasAggregates query = true) :
    (∀ addition ∈ additions events query, addition.Exact) ∧
    ∃ row, (executeEvents events query).rows = [row] ∧
      ∀ (i : Nat) (item : SelectItem) (name : Bytes) (args : List Expression) (line column : Nat)
        (aggregate : Aggregate) (measure : Measure) (cell : Int),
        query.projections[i]? = some item → item.expr = some (.functionCall name args line column) →
        name.map toUpper = nameBytes aggregate.upperName →
        aggregate = .count ∨ argumentName args = nameBytes measure.name →
        exactAggregate aggregate
          ((events.filter (selectsAlone query.whereExpr)).map measure.value) = some cell →
        row[i]? = some cell := by
  have all : ∀ event ∈ events, Event.Valid event :=
    fun event listed => Event.valid_of_validate (valid event listed)
  obtain ⟨exact_, totals⟩ := totals_initial.loop aggregates (Nat.le_refl events.length)
    (by rw [List.nil_append]; exact all) (by rw [List.length_nil, Nat.zero_add]; exact few)
  rw [List.nil_append] at totals
  have absorbed := absorbed_events aggregates events
  have alone : selectsAlone query.whereExpr = passes query.whereExpr :=
    funext (selectsAlone_eq query.whereExpr)
  have chosen : ∀ event ∈ events.filter (passes query.whereExpr), Event.Valid event :=
    fun event listed =>
    all event (List.mem_filter.mp listed).1
  refine ⟨exact_, query.projections.map
    (aggregateCell (batchLoop query events.length events ExecState.initial)), ?_, ?_⟩
  · rw [executeEvents, aggregates, if_pos rfl, absorbed.rows, List.nil_append]
  · intro i item name args line column aggregate measure cell found call named argument exactCell
    rw [alone] at exactCell
    rw [List.getElem?_map, found, Option.map_some,
      aggregateCell_exact totals absorbed chosen call named argument exactCell]

/-- `SELECT MIN(quantity) FROM trades WHERE quantity > 5` -/
def leastQuery : QueryStmt :=
  ⟨[⟨some (.functionCall (nameBytes "MIN") [.columnRef (nameBytes "quantity") 1 12] 1 8), [],
    false⟩], nameBytes "trades",
    some largeFilter, [], [], none, [], [], 0, 1, 1⟩

theorem executeEvents_exact_least : (∀ addition ∈ additions [sampleQuote, sampleQuote] leastQuery,
    addition.Exact) ∧
    ∃ row, (executeEvents [sampleQuote, sampleQuote] leastQuery).rows =
      [row] ∧ row[0]? = some 10 := by
  have accepted : ∀ event ∈ [sampleQuote, sampleQuote], Event.validate event = .ok () := by
    intro event listed
    rcases List.mem_pair.mp listed with rfl | rfl <;> rfl
  obtain ⟨sums, row, rows, cells⟩ :=
    executeEvents_exact [sampleQuote, sampleQuote] leastQuery (by decide) accepted rfl
  exact ⟨sums, row, rows, cells 0 _ _ _ _ _ .min .quantity 10 rfl rfl (by decide)
    (.inr rfl) (by decide)⟩

end VectorExecutor

end VectorTick
