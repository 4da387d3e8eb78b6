import VectorTick.Execution.Selection
import VectorTick.Foundation.Folds

/-! What the batch loop has accumulated at its end, in terms of the events that pass the filter. -/

set_option autoImplicit false

namespace VectorTick.VectorExecutor

open Foundation Vts1 Query

/-- The values a reducing kernel reads through a selection are those of the selected events. -/
theorem visitedValues_eq {T : Type} (zero : T) (field : CanonicalEvent → T)
    (filterExpr : Option Expression)
    {events : List CanonicalEvent} (short : events.length ≤ SelectionVector.maxBatchSize) :
    SimdDispatcher.visitedValues zero (events.map field)
    (some (selectBatch filterExpr events).indices)
      (selectBatch filterExpr events).count = (events.filter (passes filterExpr)).map field := by
  rw [SimdDispatcher.visitedValues, visited_all,
    ← map_positions (passes filterExpr) field zero events, ← selectBatch_eq filterExpr short,
    List.map_map]
  rfl

theorem count_selectBatch (filterExpr : Option Expression) {events : List CanonicalEvent}
    (short : events.length ≤ SelectionVector.maxBatchSize) :
    (selectBatch filterExpr events).count = (events.filter (passes filterExpr)).length := by
  have values := congrArg List.length (visitedValues_eq 0 (·.quantity) filterExpr short)
  rw [SimdDispatcher.visitedValues, visited_all, List.length_map, List.length_map] at values
  exact values

/-- Reducing a batch by itself and taking the result in is the same as going on over its values. -/
theorem key_batch {T α : Type} [LinearOrder α] (key : T → α) (step : T → T → T)
    (keys : ∀ kept value, key (step kept value) = min (key kept) (key value))
    (acc first : T) (rest : List T) :
    key (step acc (rest.foldl step first)) = ((first :: rest).map key).foldl min (key acc) := by
  rw [keys, key_foldl key step keys, List.map_cons, min_foldl_cons]

/-- Integers in the order in which the greatest comes first. -/
abbrev Down := ℤᵒᵈ

def priceWord (event : CanonicalEvent) : UInt64 := event.priceTicks.toUInt64

def quantityWord (event : CanonicalEvent) : UInt64 := event.quantity.toUInt64

theorem price_lower (kept value : Int64) :
    (if value < kept then value else kept).toInt = min kept.toInt value.toInt := by
  split
  · rename_i less
    rw [Int64.lt_iff_toInt_lt] at less
    omega
  · rename_i more
    rw [Int64.lt_iff_toInt_lt] at more
    omega

theorem price_higher (kept value : Int64) :
    OrderDual.toDual (if value > kept then value else kept).toInt =
      min (OrderDual.toDual kept.toInt) (OrderDual.toDual value.toInt) := by
  rw [← toDual_max]
  congr 1
  split
  · rename_i more
    rw [gt_iff_lt, Int64.lt_iff_toInt_lt] at more
    omega
  · rename_i less
    rw [gt_iff_lt, Int64.lt_iff_toInt_lt] at less
    omega

theorem quantity_lower (kept value : UInt32) :
    ((if value < kept then value else kept).toNat : Int) = min (kept.toNat : Int)
    (value.toNat : Int) := by
  split
  · rename_i less
    rw [UInt32.lt_iff_toNat_lt] at less
    omega
  · rename_i more
    rw [UInt32.lt_iff_toNat_lt] at more
    omega

theorem quantity_higher (kept value : UInt32) :
    OrderDual.toDual ((if value > kept then value else kept).toNat : Int) =
      min (OrderDual.toDual (kept.toNat : Int)) (OrderDual.toDual (value.toNat : Int)) := by
  rw [← toDual_max]
  congr 1
  split
  · rename_i more
    rw [gt_iff_lt, UInt32.lt_iff_toNat_lt] at more
    omega
  · rename_i less
    rw [gt_iff_lt, UInt32.lt_iff_toNat_lt] at less
    omega

/-- The state after the events `seen` have been taken in. -/
structure Absorbed (seen : List CanonicalEvent) (state : ExecState) : Prop where
  rows : state.rows = []
  count : state.aggCount = UInt64.ofNat seen.length
  sumPrice : state.aggSumPrice.toUInt64 = (seen.map priceWord).sum
  minPrice : state.aggMinPrice.toInt =
    (seen.map fun event => event.priceTicks.toInt).foldl min (2 ^ 63 - 1)
  maxPrice : (OrderDual.toDual state.aggMaxPrice.toInt : Down) =
    (seen.map fun event => OrderDual.toDual event.priceTicks.toInt).foldl min
      (OrderDual.toDual (-(2 ^ 63 - 1)))
  sumQty : state.aggSumQty = (seen.map quantityWord).sum
  minQty : (state.aggMinQty.toNat : Int) =
    (seen.map fun event => (event.quantity.toNat : Int)).foldl min (2 ^ 32 - 1)
  maxQty : (OrderDual.toDual (state.aggMaxQty.toNat : Int) : Down) =
    (seen.map fun event => OrderDual.toDual (event.quantity.toNat : Int)).foldl min
      (OrderDual.toDual 0)

theorem absorbed_initial : Absorbed [] ExecState.initial where
  rows := rfl
  count := rfl
  sumPrice := rfl
  minPrice := by decide
  maxPrice := by decide
  sumQty := rfl
  minQty := by decide
  maxQty := by decide

theorem Absorbed.matched {seen : List CanonicalEvent} {state : ExecState}
    (absorbed : Absorbed seen state)
    (count : UInt64) : Absorbed seen { state with rowsMatched := count } := { absorbed with }

theorem signed_sum (acc : Int64) (values : List Int64) :
    (values.foldl (fun total value => total + value) acc).toUInt64 =
      acc.toUInt64 + (values.map Int64.toUInt64).sum := by
  induction values generalizing acc with
  | nil => simp
  | cons value values ih =>
    rw [List.foldl_cons, ih, Int64.toUInt64_add, List.map_cons, List.sum_cons, UInt64.add_assoc]

theorem wide_sum (values : List UInt32) :
    values.foldl (fun total value => total + value.toUInt64) 0 =
      (values.map UInt32.toUInt64).sum := by
  rw [← List.foldl_map, foldl_add_word, UInt64.zero_add]

theorem Absorbed.batch {seen events : List CanonicalEvent} {state : ExecState}
    (absorbed : Absorbed seen state)
    (filterExpr : Option Expression) (short : events.length ≤ SelectionVector.maxBatchSize) :
    Absorbed (seen ++ events.filter (passes filterExpr))
      (aggregateBatch (loadBatchFromEvents events) (selectBatch filterExpr events) state) := by
  have counted := count_selectBatch filterExpr short
  have prices := visitedValues_eq 0 (·.priceTicks) filterExpr short
  have quantities := visitedValues_eq 0 (·.quantity) filterExpr short
  have total : UInt64.ofNat (seen ++ events.filter (passes filterExpr)).length =
      UInt64.ofNat seen.length + UInt64.ofNat (selectBatch filterExpr events).count := by
    rw [counted, List.length_append, UInt64.ofNat_add]
  unfold aggregateBatch
  dsimp only [loadBatchFromEvents]
  unfold SimdDispatcher.sumI64 SimdDispatcher.sumU32 SimdDispatcher.minI64
    SimdDispatcher.maxI64 SimdDispatcher.minU32
    SimdDispatcher.maxU32
  rw [prices, quantities]
  cases kept : events.filter (passes filterExpr) with
  | nil =>
    rw [kept, List.length_nil] at counted
    rw [counted, if_neg (by omega), List.append_nil]
    exact { absorbed with count := by rw [absorbed.count]; simp }
  | cons first rest =>
    rw [kept] at total counted
    rw [List.length_cons] at counted
    rw [if_pos (by omega)]
    constructor
    · exact absorbed.rows
    · rw [total, absorbed.count]
    · rw [Int64.toUInt64_add, absorbed.sumPrice, signed_sum, List.map_append, List.sum_append,
        List.map_map, show Int64.toUInt64 0 = 0 from rfl, UInt64.zero_add]
      rfl
    · rw [List.map_append, List.foldl_append, ← absorbed.minPrice]
      have batch :=
        key_batch Int64.toInt _ price_lower state.aggMinPrice first.priceTicks
        (rest.map (·.priceTicks))
      rw [← List.map_cons, List.map_map] at batch
      exact batch
    · rw [List.map_append, List.foldl_append, ← absorbed.maxPrice]
      have batch :=
        key_batch (fun value : Int64 => OrderDual.toDual value.toInt) _
        price_higher state.aggMaxPrice
        first.priceTicks (rest.map (·.priceTicks))
      rw [← List.map_cons, List.map_map] at batch
      exact batch
    · rw [absorbed.sumQty, wide_sum, List.map_append, List.sum_append, List.map_map]
      rfl
    · rw [List.map_append, List.foldl_append, ← absorbed.minQty]
      have batch :=
        key_batch (fun value : UInt32 => (value.toNat : Int)) _ quantity_lower state.aggMinQty
        first.quantity (rest.map (·.quantity))
      rw [← List.map_cons, List.map_map] at batch
      exact batch
    · rw [List.map_append, List.foldl_append, ← absorbed.maxQty]
      have batch :=
        key_batch (fun value : UInt32 => OrderDual.toDual (value.toNat : Int)) _ quantity_higher
        state.aggMaxQty first.quantity (rest.map (·.quantity))
      rw [← List.map_cons, List.map_map] at batch
      exact batch

theorem Absorbed.loop {query : QueryStmt} (aggregates : hasAggregates query = true) {fuel : Nat}
    {seen events : List CanonicalEvent} {state : ExecState} (absorbed : Absorbed seen state)
    (enough : events.length ≤ fuel) :
    Absorbed (seen ++ events.filter (passes query.whereExpr))
    (batchLoop query fuel events state) := by
  induction fuel generalizing seen events state with
  | zero =>
    have none : events = [] := List.length_eq_zero_iff.mp (by omega)
    subst none
    simpa [batchLoop] using absorbed
  | succ fuel ih =>
    unfold batchLoop
    split
    · rename_i none
      subst none
      simpa using absorbed
    · rename_i some
      have positive := List.length_pos_iff.mpr some
      have batch := (absorbed.matched (state.rowsMatched + UInt64.ofNat (selectBatch query.whereExpr
        (events.take SelectionVector.maxBatchSize)).count)).batch query.whereExpr
        (events.length_take_le SelectionVector.maxBatchSize)
      have left : (events.drop SelectionVector.maxBatchSize).length ≤ fuel := by
        rw [List.length_drop, SelectionVector.maxBatchSize]
        omega
      have rest := ih batch left
      rw [List.append_assoc, ← List.filter_append, List.take_append_drop] at rest
      exact rest

theorem absorbed_events {query : QueryStmt} (aggregates : hasAggregates query = true)
    (events : List CanonicalEvent) :
    Absorbed (events.filter (passes query.whereExpr))
    (batchLoop query events.length events ExecState.initial) := by
  have whole := absorbed_initial.loop aggregates (Nat.le_refl events.length)
  rwa [List.nil_append] at whole

end VectorTick.VectorExecutor
