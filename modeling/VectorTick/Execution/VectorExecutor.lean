import VectorTick.Query.Ast

/-! The vectorised executor: kernels over a batch of columns, the filter, and the batch loop.

A selection is the list of the row numbers chosen in the batch; the array behind it in the source
is longer, and what stands beyond `count` is never read.
-/

set_option autoImplicit false

namespace VectorTick

open Foundation Vts1 Query

namespace SimdDispatcher

/-- The rows a kernel visits: those listed, or the first `count` if there is no list. -/
def visited (sel : Option (List UInt16)) (count : Nat) : List UInt16 :=
  match sel with
  | some indices => indices.take count
  | none => (List.range count).map UInt16.ofNat

def filterRows {T : Type} (zero : T) (test : T → Bool) (data : List T)
    (inSel : Option (List UInt16)) (inCount : Nat) :
    List UInt16 :=
  (visited inSel inCount).filter fun idx => test (data.getD idx.toNat zero)

def filterGtI64 (data : List Int64) (threshold : Int64) :
    Option (List UInt16) → Nat → List UInt16 :=
  filterRows 0 (fun value => value > threshold) data

def filterLtI64 (data : List Int64) (threshold : Int64) :
    Option (List UInt16) → Nat → List UInt16 :=
  filterRows 0 (fun value => value < threshold) data

def filterEqU32 (data : List UInt32) (val : UInt32) : Option (List UInt16) → Nat → List UInt16 :=
  filterRows 0 (fun value => value = val) data

def filterEqU16 (data : List UInt16) (val : UInt16) : Option (List UInt16) → Nat → List UInt16 :=
  filterRows 0 (fun value => value = val) data

def visitedValues {T : Type} (zero : T) (data : List T) (sel : Option (List UInt16))
    (count : Nat) : List T :=
  (visited sel count).map fun idx => data.getD idx.toNat zero

/-- Signed addition wraps; the source has no defined result there. -/
def sumI64 (data : List Int64) (sel : Option (List UInt16)) (count : Nat) : Int64 :=
  (visitedValues 0 data sel count).foldl (fun total value => total + value) 0

def minI64 (data : List Int64) (sel : Option (List UInt16)) (count : Nat) : Int64 :=
  match visitedValues 0 data sel count with
  | [] => 0
  | first :: rest => rest.foldl (fun res value => if value < res then value else res) first

def maxI64 (data : List Int64) (sel : Option (List UInt16)) (count : Nat) : Int64 :=
  match visitedValues 0 data sel count with
  | [] => 0
  | first :: rest => rest.foldl (fun res value => if value > res then value else res) first

def sumU32 (data : List UInt32) (sel : Option (List UInt16)) (count : Nat) : UInt64 :=
  (visitedValues 0 data sel count).foldl (fun total value => total + value.toUInt64) 0

def minU32 (data : List UInt32) (sel : Option (List UInt16)) (count : Nat) : UInt32 :=
  match visitedValues 0 data sel count with
  | [] => 0
  | first :: rest => rest.foldl (fun res value => if value < res then value else res) first

def maxU32 (data : List UInt32) (sel : Option (List UInt16)) (count : Nat) : UInt32 :=
  match visitedValues 0 data sel count with
  | [] => 0
  | first :: rest => rest.foldl (fun res value => if value > res then value else res) first

end SimdDispatcher

/-- The chosen rows of a batch, in order. -/
structure SelectionVector where
  indices : List UInt16
  deriving DecidableEq, Repr

namespace SelectionVector

def maxBatchSize : Nat := 1024

def count (sel : SelectionVector) : Nat := sel.indices.length

def initAll (n : Nat) : SelectionVector := ⟨(List.range (min n maxBatchSize)).map UInt16.ofNat⟩

end SelectionVector

structure ColumnBatch where
  size : Nat
  exchangeTsNs : List UInt64
  receiveTsNs : List UInt64
  sequence : List UInt64
  instrumentId : List UInt32
  eventType : List UInt8
  side : List UInt8
  flags : List UInt16
  priceTicks : List Int64
  quantity : List UInt32
  venueId : List UInt16
  sourceId : List UInt16
  tradeOrOrderId : List UInt64

/-- A result. Every cell of the source's rows is the decimal text of an integer, which stands here
in its place; the time taken is left out. -/
structure QueryResult where
  columnNames : List Bytes
  rows : List (List Int)
  rowsScanned : UInt64
  rowsMatched : UInt64
  deriving DecidableEq, Repr

namespace VectorExecutor

def loadBatchFromEvents (events : List CanonicalEvent) : ColumnBatch where
  size := events.length
  exchangeTsNs := events.map (·.exchangeTsNs)
  receiveTsNs := events.map (·.receiveTsNs)
  sequence := events.map (·.sequence)
  instrumentId := events.map (·.instrumentId)
  eventType := events.map (·.eventType.value)
  side := events.map (·.side.value)
  flags := events.map (·.flags)
  priceTicks := events.map (·.priceTicks)
  quantity := events.map (·.quantity)
  venueId := events.map (·.venueId)
  sourceId := events.map (·.sourceId)
  tradeOrOrderId := events.map (·.tradeOrOrderId)

def keepRows {T : Type} (zero : T) (data : List T) (test : T → Bool) (inSel : SelectionVector) :
    SelectionVector :=
  ⟨inSel.indices.filter fun idx => test (data.getD idx.toNat zero)⟩

def filterPrice (batch : ColumnBatch) (op : TokenType) (litInt : Int64) (inSel : SelectionVector) :
    SelectionVector :=
  if op = .greater then
    ⟨SimdDispatcher.filterGtI64 batch.priceTicks litInt (some inSel.indices) inSel.count⟩
  else if op = .less then
    ⟨SimdDispatcher.filterLtI64 batch.priceTicks litInt (some inSel.indices) inSel.count⟩
  else keepRows 0 batch.priceTicks (fun value =>
    if op = .equal then value = litInt
    else if op = .notEqual then value ≠ litInt
    else if op = .greaterEqual then value ≥ litInt
    else if op = .lessEqual then value ≤ litInt
    else false) inSel

def filterInstrument (batch : ColumnBatch) (op : TokenType) (target : UInt32)
    (inSel : SelectionVector) :
    SelectionVector :=
  if op = .equal then
    ⟨SimdDispatcher.filterEqU32 batch.instrumentId target (some inSel.indices) inSel.count⟩
  else keepRows 0 batch.instrumentId (fun value =>
    if op = .notEqual then value ≠ target
    else if op = .greater then value > target
    else if op = .less then value < target
    else false) inSel

def filterQuantity (batch : ColumnBatch) (op : TokenType) (target : UInt32)
    (inSel : SelectionVector) :
    SelectionVector :=
  keepRows 0 batch.quantity (fun value =>
    if op = .equal then value = target
    else if op = .notEqual then value ≠ target
    else if op = .greater then value > target
    else if op = .greaterEqual then value ≥ target
    else if op = .less then value < target
    else if op = .lessEqual then value ≤ target
    else false) inSel

/-- A filter of any other shape than `column op literal` leaves the selection as it is, and so does
a column that is not among the four. -/
def evaluateFilter (batch : ColumnBatch) (filterExpr : Option Expression)
    (inSel : SelectionVector) : SelectionVector :=
  match filterExpr with
  | some (.binaryOp op (.columnRef col _ _) (.literal value _ _) _ _) =>
    let litInt := value.toInt64
    if col = nameBytes "price_ticks" then filterPrice batch op litInt inSel
    else if col = nameBytes "instrument_id" then
      filterInstrument batch op litInt.toUInt64.toUInt32 inSel
    else if col = nameBytes "quantity" then filterQuantity batch op litInt.toUInt64.toUInt32 inSel
    else if col = nameBytes "venue_id" then
      ⟨SimdDispatcher.filterEqU16 batch.venueId litInt.toUInt64.toUInt16
        (some inSel.indices) inSel.count⟩
    else inSel
  | _ => inSel

def selectBatch (filterExpr : Option Expression) (events : List CanonicalEvent) : SelectionVector :=
  let inSel := SelectionVector.initAll events.length
  if filterExpr.isSome then evaluateFilter (loadBatchFromEvents events) filterExpr inSel else inSel

/-- The aggregation state and what has been collected. -/
structure ExecState where
  rows : List (List Int)
  rowsMatched : UInt64
  aggCount : UInt64
  aggSumPrice : Int64
  aggMinPrice : Int64
  aggMaxPrice : Int64
  aggSumQty : UInt64
  aggMinQty : UInt32
  aggMaxQty : UInt32
  deriving DecidableEq, Repr

def ExecState.initial : ExecState where
  rows := []
  rowsMatched := 0
  aggCount := 0
  aggSumPrice := 0
  aggMinPrice := 0x7FFFFFFFFFFFFFFF
  aggMaxPrice := -0x7FFFFFFFFFFFFFFF
  aggSumQty := 0
  aggMinQty := 0xFFFFFFFF
  aggMaxQty := 0

def isFunctionCall : Option Expression → Bool
  | some (.functionCall ..) => true
  | _ => false

def hasAggregates (query : QueryStmt) : Bool :=
  query.projections.any fun item => isFunctionCall item.expr

def columnName (item : SelectItem) : Bytes :=
  if item.alias_ ≠ [] then item.alias_
  else if item.isWildcard then nameBytes "*"
  else match item.expr with
    | some (.columnRef name _ _) => name
    | some (.functionCall name _ _ _) => name ++ nameBytes "()"
    | _ => nameBytes "col"

def aggregateBatch (batch : ColumnBatch) (outSel : SelectionVector)
    (state : ExecState) : ExecState :=
  let state := { state with aggCount := state.aggCount + UInt64.ofNat outSel.count }
  if outSel.count > 0 then
    let bMinP := SimdDispatcher.minI64 batch.priceTicks (some outSel.indices) outSel.count
    let bMaxP := SimdDispatcher.maxI64 batch.priceTicks (some outSel.indices) outSel.count
    let bMinQ := SimdDispatcher.minU32 batch.quantity (some outSel.indices) outSel.count
    let bMaxQ := SimdDispatcher.maxU32 batch.quantity (some outSel.indices) outSel.count
    { state with
      aggSumPrice :=
        state.aggSumPrice + SimdDispatcher.sumI64 batch.priceTicks
        (some outSel.indices) outSel.count
      aggMinPrice := if bMinP < state.aggMinPrice then bMinP else state.aggMinPrice
      aggMaxPrice := if bMaxP > state.aggMaxPrice then bMaxP else state.aggMaxPrice
      aggSumQty :=
        state.aggSumQty + SimdDispatcher.sumU32 batch.quantity (some outSel.indices) outSel.count
      aggMinQty := if bMinQ < state.aggMinQty then bMinQ else state.aggMinQty
      aggMaxQty := if bMaxQ > state.aggMaxQty then bMaxQ else state.aggMaxQty }
  else state

/-- The cells one projection adds to the row `idx`. -/
def projectCells (batch : ColumnBatch) (idx : Nat) (item : SelectItem) : List Int :=
  match item.expr with
  | some (.columnRef name _ _) =>
    if name = nameBytes "instrument_id" then [(batch.instrumentId.getD idx 0).toNat]
    else if name = nameBytes "price_ticks" then [(batch.priceTicks.getD idx 0).toInt]
    else if name = nameBytes "quantity" then [(batch.quantity.getD idx 0).toNat]
    else if name = nameBytes "sequence" then [(batch.sequence.getD idx 0).toNat]
    else if name = nameBytes "exchange_ts_ns" then [(batch.exchangeTsNs.getD idx 0).toNat]
    else if name = nameBytes "receive_ts_ns" then [(batch.receiveTsNs.getD idx 0).toNat]
    else if name = nameBytes "venue_id" then [(batch.venueId.getD idx 0).toNat]
    else if name = nameBytes "source_id" then [(batch.sourceId.getD idx 0).toNat]
    else if name = nameBytes "trade_or_order_id" then [(batch.tradeOrOrderId.getD idx 0).toNat]
    else [0]
  | _ =>
    if item.isWildcard then
      [(batch.sequence.getD idx 0).toNat, (batch.instrumentId.getD idx 0).toNat,
        (batch.priceTicks.getD idx 0).toInt,
        (batch.quantity.getD idx 0).toNat]
    else [0]

/-- `limit > 0 && rows.size() >= limit`. -/
def limitReached (limit : UInt64) (rows : List (List Int)) : Bool :=
  limit > 0 ∧ limit.toNat ≤ rows.length

def collectRows (batch : ColumnBatch) (query : QueryStmt) :
    List UInt16 → List (List Int) → List (List Int)
  | [], rows => rows
  | idx :: rest, rows =>
    let rows := rows ++ [query.projections.flatMap (projectCells batch idx.toNat)]
    if limitReached query.limit rows then rows else collectRows batch query rest rows

/-- The loop over the batches; `fuel` bounds their number. -/
def batchLoop (query : QueryStmt) : Nat → List CanonicalEvent → ExecState → ExecState
  | 0, _, state => state
  | fuel + 1, events, state =>
    if events = [] then state
    else
      let current := events.take SelectionVector.maxBatchSize
      let batch := loadBatchFromEvents current
      let outSel := selectBatch query.whereExpr current
      let state := { state with rowsMatched := state.rowsMatched + UInt64.ofNat outSel.count }
      if hasAggregates query then
        batchLoop query fuel (events.drop SelectionVector.maxBatchSize)
          (aggregateBatch batch outSel state)
      else
        let rows := collectRows batch query outSel.indices state.rows
        let state := { state with rows := rows }
        if limitReached query.limit rows then state
        else batchLoop query fuel (events.drop SelectionVector.maxBatchSize) state

def argumentName : List Expression → Bytes
  | .columnRef name _ _ :: _ => name
  | _ => []

/-- The cell of one projection of an aggregate query. The average of prices divides `i64` by `u64`,
which is a division of the words. -/
def aggregateCell (state : ExecState) (item : SelectItem) : Int :=
  match item.expr with
  | some (.functionCall name args _ _) =>
    let fn := name.map toUpper
    let arg := argumentName args
    if fn = nameBytes "COUNT" then state.aggCount.toNat
    else if fn = nameBytes "SUM" then
      if arg = nameBytes "quantity" then state.aggSumQty.toNat else state.aggSumPrice.toInt
    else if fn = nameBytes "MIN" then
      if arg = nameBytes "quantity" then (if state.aggCount > 0 then state.aggMinQty else 0).toNat
      else (if state.aggCount > 0 then state.aggMinPrice else 0).toInt
    else if fn = nameBytes "MAX" then
      if arg = nameBytes "quantity" then (if state.aggCount > 0 then state.aggMaxQty else 0).toNat
      else (if state.aggCount > 0 then state.aggMaxPrice else 0).toInt
    else if fn = nameBytes "AVG" then
      if state.aggCount = 0 then 0
      else if arg = nameBytes "quantity" then (state.aggSumQty / state.aggCount).toNat
      else (state.aggSumPrice.toUInt64 / state.aggCount).toNat
    else 0
  | _ => 0

def executeEvents (events : List CanonicalEvent) (query : QueryStmt) : QueryResult :=
  let state := batchLoop query events.length events ExecState.initial
  { columnNames := query.projections.map columnName
    rows := if hasAggregates query then
      state.rows ++ [query.projections.map (aggregateCell state)] else state.rows
    rowsScanned := UInt64.ofNat events.length
    rowsMatched := state.rowsMatched }

end VectorExecutor

end VectorTick
