import VectorTick.Execution.Aggregates
import VectorTick.Execution.FilterLaws
import VectorTick.Execution.ReferenceInterpreter
import VectorTick.Ir.Builder

/-! The two ways of computing an aggregate, and when they agree.

The builder lowers an aggregate query without its filter, and an average to nothing at all. The
interpreter therefore aggregates over every event, and returns zero for an average.
-/

set_option autoImplicit false

namespace VectorTick

open Foundation Vts1 Query Ir

inductive Aggregate where
  | count
  | sum
  | min
  | max
  | avg
  deriving DecidableEq, Repr

namespace Aggregate

def upperName : Aggregate → String
  | count => "COUNT"
  | sum => "SUM"
  | min => "MIN"
  | max => "MAX"
  | avg => "AVG"

def lowerName : Aggregate → String
  | count => "count"
  | sum => "sum"
  | min => "min"
  | max => "max"
  | avg => "avg"

end Aggregate

/-- The columns that are aggregated. -/
inductive Measure where
  | price
  | quantity
  deriving DecidableEq, Repr

namespace Measure

def name : Measure → String
  | price => "price_ticks"
  | quantity => "quantity"

/-- The column's value as the integer it is. -/
def value : Measure → CanonicalEvent → Int
  | price, event => event.priceTicks.toInt
  | quantity, event => event.quantity.toNat

/-- The column's value as the word it is loaded as. -/
def word : Measure → CanonicalEvent → UInt64
  | price, event => event.priceTicks.toUInt64
  | quantity, event => event.quantity.toUInt64

def columnId : Measure → UInt32
  | price => 7
  | quantity => 8

def type : Measure → IrType
  | price => .i64
  | quantity => .u32

end Measure

/-- A query with one aggregate call as its projection, over one of the two columns; a count may be
over anything. Every other clause but `AGG` is as it may be. -/
structure AggregateQuery (stmt : QueryStmt) (aggregate : Aggregate) (measure : Measure) : Prop where
  noAgg : stmt.aggregations = []
  call : ∃ item name args line column, stmt.projections = [item] ∧
    item.expr = some (.functionCall name args line column) ∧
      name.map toUpper = nameBytes aggregate.upperName ∧
    (aggregate = .count ∨ ∃ l c, args = [.columnRef (nameBytes measure.name) l c])

def Aggregate.opcode : Aggregate → Measure → Opcode
  | .sum, .price => .sumI64
  | .sum, .quantity => .sumU64
  | .min, .price => .minI64
  | .min, .quantity => .minU64
  | .max, .price => .maxI64
  | .max, .quantity => .maxU64
  | _, _ => .count

def loweredBlock (aggregate : Aggregate) (measure : Measure) : List Instruction :=
  match aggregate with
  | .count => [.aggregateOp .count 1 2 .u64, .returnOp 2]
  | .avg => [.loadColumnOp measure.columnId 1 2 measure.type, .returnOp 0]
  | _ => [.loadColumnOp measure.columnId 1 2 measure.type,
      .aggregateOp (aggregate.opcode measure) 2 3 measure.type,
      .returnOp 3]

def lowered (aggregate : Aggregate) (measure : Measure) : Function where
  blocks := [⟨loweredBlock aggregate measure⟩]
  parameters := [1]
  nextValueId := match aggregate with
    | .count | .avg => 3
    | _ => 4

theorem toLower_toUpper (c : UInt8) : toLower (toUpper c) = toLower c := by
  unfold toLower toUpper
  grind

theorem lowerName_of_upperName {name : Bytes} {aggregate : Aggregate}
    (upper : name.map toUpper = nameBytes aggregate.upperName) :
    name.map toLower = nameBytes aggregate.lowerName := by
  have twice : (name.map toUpper).map toLower = name.map toLower := by
    rw [List.map_map]
    exact List.map_congr_left fun c _ => toLower_toUpper c
  rw [← twice, upper]
  cases aggregate <;> decide

theorem columnInfo_measure (measure : Measure) :
    Builder.columnInfo (nameBytes measure.name) = (measure.columnId, measure.type) := by
  cases measure <;> decide

theorem buildFromQuery_aggregate {stmt : QueryStmt} {aggregate : Aggregate} {measure : Measure}
    (shape : AggregateQuery stmt aggregate measure) :
    Builder.buildFromQuery stmt = lowered aggregate measure := by
  obtain ⟨item, name, args, line, column, projections, call, upper, arguments⟩ := shape.call
  have lower := lowerName_of_upperName upper
  have found : Builder.aggregateCall stmt = some (name, args) := by
    unfold Builder.aggregateCall
    rw [shape.noAgg, projections]
    dsimp only
    rw [List.findSome?_cons, call]
  have statement : Builder.lowerStatement stmt = (do
      let result ←
        if nameBytes aggregate.lowerName = nameBytes "count" then do
          let row ← Builder.rowIndex
          Builder.createCount row
        else Builder.lowerArgument (nameBytes aggregate.lowerName) args
      Builder.createReturn result) := by
    unfold Builder.lowerStatement
    rw [found, ← lower]
  unfold Builder.buildFromQuery
  rw [statement]
  rcases arguments with rfl | ⟨l, c, rfl⟩
  · rw [Aggregate.lowerName, if_pos rfl]
    rfl
  · have argument : Builder.lowerArgument (nameBytes aggregate.lowerName)
        [.columnRef (nameBytes measure.name) l c] = (do
        let row ← Builder.rowIndex
        let loaded ← Builder.createLoadColumn measure.columnId row measure.type
        Builder.createAggregate (nameBytes aggregate.lowerName) loaded measure.type) := by
      rw [Builder.lowerArgument, Builder.lowerExpression, Builder.inferType, columnInfo_measure]
      rfl
    rw [argument]
    cases aggregate
    case count =>
      rw [Aggregate.lowerName, if_pos rfl]
      rfl
    case sum => cases measure <;> rfl
    case min => cases measure <;> rfl
    case max => cases measure <;> rfl
    case avg => cases measure <;> rfl

namespace ReferenceInterpreter

theorem accumulateRows_eq {function : Function} {aggregate : Instruction}
    {stop : Option Nat} {block : BasicBlock}
    {input : CanonicalEvent → UInt64} (entry : function.entryBlock = some block)
    (inputs : ∀ event,
      aggregateInput event aggregate stop 0 block.instructions (initialValues function) =
      .ok (input event)) (events : List CanonicalEvent) (state : AggregateState) :
    accumulateRows function aggregate stop events state =
      .ok ((events.map input).foldl
        (fun state word => accumulate aggregate.opcode word state) state) := by
  induction events generalizing state with
  | nil => rfl
  | cons event events ih =>
    rw [accumulateRows, entry]
    dsimp only
    rw [inputs, List.map_cons, List.foldl_cons, ← ih]
    rfl

theorem count_foldl (op : Opcode) (words : List UInt64) (state : AggregateState) :
    (words.foldl (fun state word => accumulate op word state) state).count =
      state.count + UInt64.ofNat words.length := by
  induction words generalizing state with
  | nil => simp
  | cons word words ih =>
    have one : (accumulate op word state).count = state.count + 1 := by cases op <;> rfl
    rw [List.foldl_cons, ih, one, List.length_cons, UInt64.add_assoc]
    congr 1
    rw [Nat.add_comm, UInt64.ofNat_add]
    rfl

theorem field_foldl {T : Type} {op : Opcode} (field : AggregateState → T)
    (view : UInt64 → T) (step : T → T → T)
    (each : ∀ state word, step (field state) (view word) = field (accumulate op word state))
    (words : List UInt64)
    (state : AggregateState) :
    field (words.foldl (fun state word => accumulate op word state) state) =
      (words.map view).foldl step (field state) := by
  rw [List.foldl_map]
  exact (List.foldl_hom field each).symm

end ReferenceInterpreter

open ReferenceInterpreter

def aggregated : Aggregate → Measure → CanonicalEvent → UInt64
  | .count, _, _ => 0
  | _, measure, event => measure.word event

theorem executeAggregate_lowered {aggregate : Aggregate} (notAvg : aggregate ≠ .avg)
    (measure : Measure) (fuel : Nat)
    (events : List CanonicalEvent) :
    executeAggregate (lowered aggregate measure) fuel events =
      .ok (aggregateResult (aggregate.opcode measure)
        ((events.map (aggregated aggregate measure)).foldl
        (fun state word => accumulate (aggregate.opcode measure) word state)
          AggregateState.initial)) := by
  have rows : ∀ place instr, findAggregate (lowered aggregate measure) = some (0, place, instr) →
      instr.opcode = aggregate.opcode measure →
      (∀ event, aggregateInput event instr (some place) 0 (loweredBlock aggregate measure)
        (initialValues (lowered aggregate measure)) = .ok (aggregated aggregate measure event)) →
      executeAggregate (lowered aggregate measure) fuel events =
        .ok (aggregateResult (aggregate.opcode measure)
          ((events.map (aggregated aggregate measure)).foldl
          (fun state word => accumulate (aggregate.opcode measure) word state)
            AggregateState.initial)) := by
    intro place instr found opcode inputs
    unfold executeAggregate
    rw [found]
    dsimp only
    rw [if_pos rfl, @accumulateRows_eq _ _ _ ⟨loweredBlock aggregate measure⟩ _ rfl inputs, opcode]
    rfl
  cases aggregate
  case avg => exact absurd rfl notAvg
  case count => exact rows 0 _ rfl rfl fun _ => rfl
  all_goals cases measure <;> exact rows 1 _ rfl rfl fun _ => rfl

theorem executeAggregate_avg (measure : Measure) {fuel : Nat} (enough : 0 < fuel)
    (events : List CanonicalEvent) :
    executeAggregate (lowered .avg measure) fuel events = .ok 0 := by
  obtain ⟨fuel, rfl⟩ := Nat.exists_eq_add_of_lt enough
  have none : findAggregate (lowered .avg measure) = none := by cases measure <;> rfl
  unfold executeAggregate
  rw [none]
  dsimp only
  induction events with
  | nil => rfl
  | cons event events ih =>
    have zero : execute (lowered .avg measure) (0 + fuel + 1) event =
        .ok 0 := by cases measure <;> rfl
    rw [countRows, zero]
    exact ih

open VectorExecutor

/-- The cell of each aggregate, by the names the call gives. -/
def cell (aggregate : Aggregate) (measure : Measure) (state : ExecState) : Int :=
  match aggregate, measure with
  | .count, _ => state.aggCount.toNat
  | .sum, .quantity => state.aggSumQty.toNat
  | .sum, .price => state.aggSumPrice.toInt
  | .min, .quantity => (if state.aggCount > 0 then state.aggMinQty else 0).toNat
  | .min, .price => (if state.aggCount > 0 then state.aggMinPrice else 0).toInt
  | .max, .quantity => (if state.aggCount > 0 then state.aggMaxQty else 0).toNat
  | .max, .price => (if state.aggCount > 0 then state.aggMaxPrice else 0).toInt
  | .avg, .quantity => if state.aggCount = 0 then 0 else (state.aggSumQty / state.aggCount).toNat
  | .avg, .price =>
    if state.aggCount = 0 then 0 else (state.aggSumPrice.toUInt64 / state.aggCount).toNat

theorem executeEvents_aggregate {stmt : QueryStmt} {aggregate : Aggregate} {measure : Measure}
    (shape : AggregateQuery stmt aggregate measure) (events : List CanonicalEvent) :
    ∃ state, Absorbed (events.filter (passes stmt.whereExpr)) state ∧
      (executeEvents events stmt).rows = [[cell aggregate measure state]] := by
  obtain ⟨item, name, args, line, column, projections, call, upper, arguments⟩ := shape.call
  have aggregates : hasAggregates stmt = true := by
    unfold hasAggregates
    rw [projections, List.any_cons, call]
    rfl
  have absorbed := absorbed_events aggregates events
  refine ⟨_, absorbed, ?_⟩
  unfold executeEvents
  dsimp only
  rw [if_pos aggregates, absorbed.rows, projections, List.nil_append, List.map_cons, List.map_nil]
  congr 2
  unfold aggregateCell
  rw [call]
  dsimp only
  rw [upper]
  rcases arguments with rfl | ⟨l, c, rfl⟩
  · rfl
  · cases aggregate <;> cases measure <;> rfl

/-- How the words the interpreter returns are read: the extremes and the sum of prices are signed.
-/
def reading (aggregate : Aggregate) (measure : Measure) (word : UInt64) : Int :=
  match aggregate, measure with
  | .sum, .price | .min, .price | .max, .price => word.toInt64.toInt
  | _, _ => word.toNat

theorem ofNat_pos_iff {T : Type} {items : List T} (sized : items.length < 2 ^ 64) :
    UInt64.ofNat items.length > 0 ↔ items ≠ [] := by
  rw [gt_iff_lt, UInt64.lt_iff_toNat_lt, UInt64.toNat_ofNat_of_lt' sized, ← List.length_pos_iff]
  rfl

theorem ofNat_eq_zero_iff {T : Type} {items : List T} (sized : items.length < 2 ^ 64) :
    UInt64.ofNat items.length = 0 ↔ items = [] := by
  rw [← UInt64.toNat_inj, UInt64.toNat_ofNat_of_lt' sized]
  exact List.length_eq_zero_iff

namespace Measure

/-- The bounds the batch loop starts from. -/
def vectorTop : Measure → Int
  | price => 2 ^ 63 - 1
  | quantity => 2 ^ 32 - 1

def vectorBottom : Measure → Int
  | price => -(2 ^ 63 - 1)
  | quantity => 0

/-- The bounds the interpreter starts from. -/
def referenceTop : Measure → Int
  | price => 2 ^ 63 - 1
  | quantity => 2 ^ 64 - 1

def referenceBottom : Measure → Int
  | price => -2 ^ 63
  | quantity => 0

/-- The value in the order in which the greatest comes first. -/
def dual (measure : Measure) (event : CanonicalEvent) : Down :=
  OrderDual.toDual (measure.value event)

theorem value_bounds {event : CanonicalEvent}
    (valid : Event.validate event = .ok ()) (measure : Measure) :
    measure.vectorBottom ≤ measure.value event ∧ measure.value event ≤ measure.vectorTop := by
  have fields := Event.valid_of_validate valid
  cases measure with
  | price =>
    have low := Int64.le_iff_toInt_le.mp fields.priceLow
    have high := Int64.le_iff_toInt_le.mp fields.priceHigh
    have lowest : (-Limits.maxPrice).toInt = -1000000000000 := by decide
    have highest : Limits.maxPrice.toInt = 1000000000000 := by decide
    rw [lowest] at low
    rw [highest] at high
    unfold vectorBottom vectorTop value
    dsimp only
    omega
  | quantity =>
    have below := event.quantity.toNat_lt
    unfold vectorBottom vectorTop value
    dsimp only
    omega

end Measure

theorem guarded_least {T α : Type} [LinearOrder α] {condition : Prop} [Decidable condition]
    {seen : List CanonicalEvent} (present : condition ↔ seen ≠ []) (key : T → α)
    {kept absent : T} {top : α}
    {value : CanonicalEvent → α} (folded : key kept = (seen.map value).foldl min top) :
    key (if condition then kept else absent) = leastOr (key absent) top (seen.map value) := by
  unfold leastOr
  by_cases empty : seen = []
  · rw [if_neg fun holds => present.mp holds empty, if_pos (by rw [empty]; rfl)]
  · rw [if_pos (present.mpr empty), if_neg (by simpa using empty), folded]

theorem cell_min {seen : List CanonicalEvent} {state : ExecState} (absorbed : Absorbed seen state)
    (sized : seen.length < 2 ^ 64) (measure : Measure) :
    cell .min measure state = leastOr 0 measure.vectorTop (seen.map measure.value) := by
  have present : state.aggCount > 0 ↔ seen ≠ [] := by rw [absorbed.count, ofNat_pos_iff sized]
  cases measure with
  | price => exact guarded_least present Int64.toInt absorbed.minPrice
  | quantity => exact guarded_least present (fun value : UInt32 =>
    (value.toNat : Int)) absorbed.minQty

theorem cell_max {seen : List CanonicalEvent} {state : ExecState} (absorbed : Absorbed seen state)
    (sized : seen.length < 2 ^ 64) (measure : Measure) :
    (OrderDual.toDual (cell .max measure state) : Down) =
      leastOr (OrderDual.toDual 0) (OrderDual.toDual measure.vectorBottom) (seen.map measure.dual) := by
  have present : state.aggCount > 0 ↔ seen ≠ [] := by rw [absorbed.count, ofNat_pos_iff sized]
  cases measure with
  | price => exact guarded_least present (fun value : Int64 =>
    (OrderDual.toDual value.toInt : Down)) absorbed.maxPrice
  | quantity =>
    exact guarded_least present
      (fun value : UInt32 => (OrderDual.toDual (value.toNat : Int) : Down)) absorbed.maxQty

/-- The final word of each aggregate over all events. -/
def referenceWord (aggregate : Aggregate) (measure : Measure)
    (events : List CanonicalEvent) : UInt64 :=
  aggregateResult (aggregate.opcode measure) ((events.map (aggregated aggregate measure)).foldl
    (fun state word => accumulate (aggregate.opcode measure) word state) AggregateState.initial)

theorem referenceWord_count (measure : Measure) (events : List CanonicalEvent) :
    referenceWord .count measure events = UInt64.ofNat events.length := by
  change (((events.map (aggregated .count measure)).foldl
    (fun state word => accumulate .count word state)
    AggregateState.initial).count = _)
  rw [count_foldl, List.length_map]
  exact UInt64.zero_add _

theorem referenceWord_sum (measure : Measure) (events : List CanonicalEvent) :
    referenceWord .sum measure events = (events.map measure.word).sum := by
  cases measure with
  | price =>
    change (((events.map (Measure.word .price)).foldl
      (fun state word => accumulate .sumI64 word state)
      AggregateState.initial).sumI64.toUInt64 = _)
    rw [field_foldl AggregateState.sumI64 UInt64.toInt64 (fun total value => total + value)
      fun _ _ => rfl,
      signed_sum, List.map_map, List.map_map]
    exact UInt64.zero_add _
  | quantity =>
    change (((events.map (Measure.word .quantity)).foldl
      (fun state word => accumulate .sumU64 word state)
      AggregateState.initial).sumU64 = _)
    rw [field_foldl AggregateState.sumU64 id (fun total word => total + word) fun _ _ => rfl,
      foldl_add_word, List.map_id]
    exact UInt64.zero_add _

theorem counted_iff {op : Opcode} {words : List UInt64} {events : List CanonicalEvent}
    (same : words.length = events.length) (sized : events.length < 2 ^ 64) :
    ¬ (words.foldl (fun state word => accumulate op word state) AggregateState.initial).count = 0 ↔
      events ≠ [] := by
  rw [count_foldl, same]
  change ¬ (0 + UInt64.ofNat events.length = 0 ) ↔ _
  rw [UInt64.zero_add, ofNat_eq_zero_iff sized]

theorem word_lower (kept value : UInt64) :
    ((if value < kept then value else kept).toNat : Int) = min (kept.toNat : Int)
    (value.toNat : Int) := by
  split
  · rename_i less
    rw [UInt64.lt_iff_toNat_lt] at less
    omega
  · rename_i more
    rw [UInt64.lt_iff_toNat_lt] at more
    omega

theorem word_higher (kept value : UInt64) :
    (OrderDual.toDual ((if kept < value then value else kept).toNat : Int) : Down) =
      min (OrderDual.toDual (kept.toNat : Int)) (OrderDual.toDual (value.toNat : Int)) := by
  rw [← toDual_max]
  congr 1
  split
  · rename_i more
    rw [UInt64.lt_iff_toNat_lt] at more
    omega
  · rename_i less
    rw [UInt64.lt_iff_toNat_lt] at less
    omega

theorem referenceWord_min {events : List CanonicalEvent}
    (sized : events.length < 2 ^ 64) (measure : Measure) :
    reading .min measure (referenceWord .min measure events) =
      leastOr 0 measure.referenceTop (events.map measure.value) := by
  have present :=
    @counted_iff (Aggregate.min.opcode measure) (events.map measure.word) events (by simp) sized
  cases measure with
  | price =>
    have folded : ((events.map (Measure.word .price)).foldl
        (fun state word => accumulate .minI64 word state)
        AggregateState.initial).minI64.toInt =
          (events.map (Measure.value .price)).foldl min (2 ^ 63 - 1) := by
      rw [field_foldl AggregateState.minI64 UInt64.toInt64
        (fun kept value => if value < kept then value else kept)
        fun _ _ => rfl, key_foldl Int64.toInt _ price_lower, List.map_map, List.map_map]
      rfl
    change (if _ then 0 else _ : UInt64).toInt64.toInt = _
    rw [← ite_not]
    exact guarded_least present (fun word : UInt64 => word.toInt64.toInt) folded
  | quantity =>
    have folded : (((events.map (Measure.word .quantity)).foldl
        (fun state word => accumulate .minU64 word state)
        AggregateState.initial).minU64.toNat : Int) =
          (events.map (Measure.value .quantity)).foldl min (2 ^ 64 - 1) := by
      rw [field_foldl AggregateState.minU64 id (fun kept word => if word < kept then word else kept)
        fun _ _ => rfl, key_foldl (fun word : UInt64 => (word.toNat : Int)) _ word_lower,
          List.map_map, List.map_map]
      rfl
    change ((if _ then 0 else _ : UInt64).toNat : Int) = _
    rw [← ite_not]
    exact guarded_least present (fun word : UInt64 => (word.toNat : Int)) folded

theorem referenceWord_max {events : List CanonicalEvent}
    (sized : events.length < 2 ^ 64) (measure : Measure) :
    (OrderDual.toDual (reading .max measure (referenceWord .max measure events)) : Down) =
      leastOr (OrderDual.toDual 0) (OrderDual.toDual measure.referenceBottom)
      (events.map measure.dual) := by
  have present :=
    @counted_iff (Aggregate.max.opcode measure) (events.map measure.word) events (by simp) sized
  cases measure with
  | price =>
    have folded : (OrderDual.toDual ((events.map (Measure.word .price)).foldl
        (fun state word => accumulate .maxI64 word state)
          AggregateState.initial).maxI64.toInt : Down) =
        (events.map (Measure.dual .price)).foldl min (OrderDual.toDual (-2 ^ 63)) := by
      rw [field_foldl AggregateState.maxI64 UInt64.toInt64
        (fun kept value => if value > kept then value else kept)
        fun _ _ => rfl,
          key_foldl (fun value : Int64 => (OrderDual.toDual value.toInt : Down)) _ price_higher,
        List.map_map, List.map_map]
      rfl
    change (OrderDual.toDual (if _ then 0 else _ : UInt64).toInt64.toInt : Down) = _
    rw [← ite_not]
    exact guarded_least present
      (fun word : UInt64 => (OrderDual.toDual word.toInt64.toInt : Down)) folded
  | quantity =>
    -- There is no guard here: the fold starts from zero.
    have folded : (OrderDual.toDual (((events.map (Measure.word .quantity)).foldl
        (fun state word => accumulate .maxU64 word state)
          AggregateState.initial).maxU64.toNat : Int) : Down) =
        (events.map (Measure.dual .quantity)).foldl min (OrderDual.toDual 0) := by
      rw [field_foldl AggregateState.maxU64 id (fun kept word => if kept < word then word else kept)
        fun _ _ => rfl, key_foldl
          (fun word : UInt64 => (OrderDual.toDual (word.toNat : Int) : Down)) _ word_higher,
        List.map_map, List.map_map]
      rfl
    refine folded.trans ?_
    cases events <;> rfl

/-- When an aggregate of the events that pass is the one of all events, which is what is lowered; an
average is lowered to nothing, and zero is returned. -/
def AgreeWhen (aggregate : Aggregate) (measure : Measure) (pass : CanonicalEvent → Bool)
    (events : List CanonicalEvent) : Prop :=
  match aggregate with
  | .count => ∀ event ∈ events, pass event = true
  | .sum => ((events.filter fun event => !pass event).map measure.word).sum = 0
  | .min => LeastKept measure.value 0 pass events
  | .max => LeastKept measure.dual (OrderDual.toDual 0) pass events
  | .avg => (∀ event ∈ events, pass event = false) ∨
      ((events.filter pass).map measure.word).sum.toNat < (events.filter pass).length

section Agreement

variable {pass : CanonicalEvent → Bool} {events : List CanonicalEvent} {state : ExecState}

theorem count_agrees_iff (absorbed : Absorbed (events.filter pass) state)
    (sized : events.length < 2 ^ 64)
    (measure : Measure) :
    cell .count measure state = reading .count measure (referenceWord .count measure events) ↔
      AgreeWhen .count measure pass events := by
  have fewer : (events.filter pass).length < 2 ^ 64 :=
    lt_of_le_of_lt (List.length_filter_le _ _) sized
  change ((state.aggCount.toNat : Int) = ((referenceWord .count measure events).toNat : Int)) ↔ _
  rw [referenceWord_count, absorbed.count, UInt64.toNat_ofNat_of_lt' sized,
    UInt64.toNat_ofNat_of_lt' fewer, Nat.cast_inj, List.length_filter_eq_length_iff]
  rfl

theorem sum_agrees_iff (absorbed : Absorbed (events.filter pass) state) (measure : Measure) :
    cell .sum measure state = reading .sum measure (referenceWord .sum measure events) ↔
      AgreeWhen .sum measure pass events := by
  rw [referenceWord_sum]
  refine Iff.trans ?_ (sum_filter_word_iff measure.word pass events)
  cases measure with
  | price =>
    change state.aggSumPrice.toInt = (UInt64.toInt64 _).toInt ↔ _
    rw [Int64.toInt_inj, ← Int64.toInt64_toUInt64 state.aggSumPrice, absorbed.sumPrice]
    exact (Function.LeftInverse.injective UInt64.toUInt64_toInt64).eq_iff
  | quantity =>
    change ((state.aggSumQty.toNat : Int) = ((UInt64.toNat _ : Nat) : Int)) ↔ _
    rw [Nat.cast_inj, UInt64.toNat_inj, absorbed.sumQty]
    rfl

theorem min_agrees_iff (absorbed : Absorbed (events.filter pass) state)
    (sized : events.length < 2 ^ 64)
    (valid : ∀ event ∈ events, Event.validate event = .ok ()) (measure : Measure) :
    cell .min measure state = reading .min measure (referenceWord .min measure events) ↔
      AgreeWhen .min measure pass events := by
  have fewer : (events.filter pass).length < 2 ^ 64 :=
    lt_of_le_of_lt (List.length_filter_le _ _) sized
  have below : ∀ event ∈ events, measure.value event ≤ measure.vectorTop := fun event listed =>
    (measure.value_bounds (valid event listed)).2
  have wider : measure.vectorTop ≤ measure.referenceTop := by cases measure <;> decide
  rw [cell_min absorbed fewer, referenceWord_min sized]
  exact leastOr_filter_iff below fun event listed => (below event listed).trans wider

theorem max_agrees_iff (absorbed : Absorbed (events.filter pass) state)
    (sized : events.length < 2 ^ 64)
    (valid : ∀ event ∈ events, Event.validate event = .ok ()) (measure : Measure) :
    cell .max measure state = reading .max measure (referenceWord .max measure events) ↔
      AgreeWhen .max measure pass events := by
  have fewer : (events.filter pass).length < 2 ^ 64 :=
    lt_of_le_of_lt (List.length_filter_le _ _) sized
  have above : ∀ event ∈ events, measure.vectorBottom ≤ measure.value event := fun event listed =>
    (measure.value_bounds (valid event listed)).1
  have wider : measure.referenceBottom ≤ measure.vectorBottom := by cases measure <;> decide
  rw [← OrderDual.toDual_inj, cell_max absorbed fewer, referenceWord_max sized]
  exact leastOr_filter_iff (fun event listed => OrderDual.toDual_le_toDual.mpr (above event listed))
    fun event listed =>
    OrderDual.toDual_le_toDual.mpr (wider.trans (above event listed))

theorem avg_agrees_iff (absorbed : Absorbed (events.filter pass) state)
    (sized : events.length < 2 ^ 64)
    (measure : Measure) :
    cell .avg measure state = reading .avg measure 0 ↔ AgreeWhen .avg measure pass events := by
  have fewer : (events.filter pass).length < 2 ^ 64 :=
    lt_of_le_of_lt (List.length_filter_le _ _) sized
  have divided : cell .avg measure state = if state.aggCount = 0 then 0 else
      (((((events.filter pass).map measure.word).sum / state.aggCount).toNat : Nat) : Int) := by
    cases measure with
    | price =>
      have sums := absorbed.sumPrice
      change (if state.aggCount = 0 then
        (0 : Int) else (state.aggSumPrice.toUInt64 / state.aggCount).toNat) = _
      rw [sums]
      rfl
    | quantity =>
      have sums := absorbed.sumQty
      change (if state.aggCount = 0 then
        (0 : Int) else (state.aggSumQty / state.aggCount).toNat) = _
      rw [sums]
      rfl
  have zero : reading .avg measure 0 = 0 := by cases measure <;> rfl
  have nothing : (∀ event ∈ events, pass event = false) ↔ events.filter pass = [] := by
    simp [List.filter_eq_nil_iff]
  rw [divided, zero, absorbed.count]
  unfold AgreeWhen
  dsimp only
  rw [nothing]
  by_cases empty : events.filter pass = []
  · simp [empty]
  · have positive := List.length_pos_iff.mpr empty
    rw [if_neg (by rw [ofNat_eq_zero_iff fewer]; exact empty), UInt64.toNat_div,
      UInt64.toNat_ofNat_of_lt' fewer]
    rw [Nat.cast_eq_zero, Nat.div_eq_zero_iff_lt positive]
    simp [empty]

end Agreement

/-- The two paths agree exactly when `AgreeWhen` holds of the events and the filter. -/
theorem aggregates_agree_iff {stmt : QueryStmt} {aggregate : Aggregate} {measure : Measure}
    (shape : AggregateQuery stmt aggregate measure) {events : List CanonicalEvent}
    (valid : ∀ event ∈ events, Event.validate event = .ok ())
    (sized : events.length < 2 ^ 64) {fuel : Nat}
    (enough : 0 < fuel) :
    (∃ word, executeAggregate (Builder.buildFromQuery stmt) fuel events = .ok word ∧
      (executeEvents events stmt).rows = [[reading aggregate measure word]]) ↔
      AgreeWhen aggregate measure (passes stmt.whereExpr) events := by
  obtain ⟨state, absorbed, rows⟩ := executeEvents_aggregate shape events
  rw [buildFromQuery_aggregate shape, rows]
  have single : ∀ word, executeAggregate (lowered aggregate measure) fuel events = .ok word →
      ((∃ word, executeAggregate (lowered aggregate measure) fuel events = .ok word ∧
        [[cell aggregate measure state]] = [[reading aggregate measure word]]) ↔
        cell aggregate measure state = reading aggregate measure word) := by
    intro word returned
    constructor
    · rintro ⟨other, returned', same⟩
      rw [returned] at returned'
      cases returned'
      simpa using same
    · intro same
      exact ⟨word, returned, by rw [same]⟩
  by_cases average : aggregate = .avg
  · subst average
    rw [single 0 (executeAggregate_avg measure enough events)]
    exact avg_agrees_iff absorbed sized measure
  · rw [single _ (executeAggregate_lowered average measure fuel events)]
    cases aggregate with
    | count => exact count_agrees_iff absorbed sized measure
    | sum => exact sum_agrees_iff absorbed measure
    | min => exact min_agrees_iff absorbed sized valid measure
    | max => exact max_agrees_iff absorbed sized valid measure
    | avg => exact absurd rfl average

/-- `SELECT COUNT(*) FROM events` with a filter. -/
def countQuery (filterExpr : Option Expression) : QueryStmt where
  projections := [⟨some (.functionCall (nameBytes "COUNT") [] 1 8), [], false⟩]
  tableName := nameBytes "events"
  whereExpr := filterExpr
  letBindings := []
  groupByColumns := []
  tumbleWindow := none
  aggregations := []
  orderBy := []
  limit := 0
  line := 1
  column := 1

theorem countQuery_shape (filterExpr : Option Expression) :
    AggregateQuery (countQuery filterExpr) .count .price where
  noAgg := rfl
  call := ⟨_, _, _, _, _, rfl, rfl, by decide, .inl rfl⟩

theorem sampleQuote_valid : ∀ event ∈ [sampleQuote], Event.validate event = .ok () := by
  simp only [List.mem_singleton, forall_eq]
  decide

theorem aggregates_agree_unfiltered :
    AgreeWhen .count .price (passes none) [sampleQuote] ∧
      ∃ word, executeAggregate
        (Builder.buildFromQuery (countQuery none)) 1 [sampleQuote] = .ok word ∧
        (executeEvents [sampleQuote] (countQuery none)).rows = [[reading .count .price word]] := by
  have all : AgreeWhen .count .price (passes none) [sampleQuote] := by
    intro event _
    rfl
  exact ⟨all, (aggregates_agree_iff (countQuery_shape none) sampleQuote_valid
    (by decide) Nat.one_pos).mpr all⟩

/-- `SELECT COUNT(*) WHERE price_ticks > 200` over one quote at 100: one by the
interpreter, zero by the executor. -/
theorem aggregates_disagree :
    executeAggregate (Builder.buildFromQuery (countQuery (some dearFilter)))
      1 [sampleQuote] = .ok 1 ∧
      (executeEvents [sampleQuote] (countQuery (some dearFilter))).rows = [[0]] ∧
      ¬ ∃ word, executeAggregate (Builder.buildFromQuery (countQuery (some dearFilter))) 1
        [sampleQuote] = .ok word ∧
        (executeEvents [sampleQuote] (countQuery (some dearFilter))).rows =
          [[reading .count .price word]] := by
  have reference : executeAggregate (Builder.buildFromQuery (countQuery (some dearFilter))) 1
      [sampleQuote] = .ok 1 := by
    decide
  have vector : (executeEvents [sampleQuote] (countQuery (some dearFilter))).rows =
      [[0]] := by decide
  refine ⟨reference, vector, ?_⟩
  rintro ⟨word, returned, rows⟩
  rw [reference] at returned
  cases returned
  rw [vector] at rows
  exact absurd rows (by decide)

end VectorTick
