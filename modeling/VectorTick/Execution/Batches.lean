import VectorTick.Execution.FilterLaws
import VectorTick.Foundation.Buffers

/-! The batch loop over the buffers it reuses, and the rows it returns.

One batch and two selections are filled again for every batch, so behind the rows of the current one
stands what earlier batches left. None of it is read: the loop does what it would do on fresh lists.
-/

set_option autoImplicit false

namespace VectorTick

open Foundation Vts1 Query

/-- The array of a selection, of which the first `count` entries count. -/
structure SelectionBuffer where
  indices : List UInt16
  count : Nat
  size : indices.length = SelectionVector.maxBatchSize

namespace SelectionBuffer

def live (sel : SelectionBuffer) : SelectionVector := ⟨sel.indices.take sel.count⟩

def initAll (sel : SelectionBuffer) (n : Nat) : SelectionBuffer where
  indices := fill 0 ((List.range (min n SelectionVector.maxBatchSize)).map UInt16.ofNat) sel.indices
  count := min n SelectionVector.maxBatchSize
  size := by rw [length_fill, sel.size]

def clear (sel : SelectionBuffer) : SelectionBuffer := { sel with count := 0 }

/-- `indices[count++] = idx` -/
def push (sel : SelectionBuffer) (idx : UInt16) : SelectionBuffer where
  indices := sel.indices.set sel.count idx
  count := sel.count + 1
  size := by rw [List.length_set, sel.size]

theorem live_initAll (sel : SelectionBuffer) (n : Nat) :
    (sel.initAll n).live = SelectionVector.initAll n := by
  have room : ((List.range (min n SelectionVector.maxBatchSize)).map UInt16.ofNat).length ≤
      sel.indices.length := by
    rw [List.length_map, List.length_range, sel.size]
    exact Nat.min_le_right _ _
  have filled := take_fill room
  rw [List.length_map, List.length_range] at filled
  exact congrArg SelectionVector.mk filled

theorem live_push {sel : SelectionBuffer} (room : sel.count < SelectionVector.maxBatchSize)
    (idx : UInt16) :
    (sel.push idx).live = ⟨sel.live.indices ++ [idx]⟩ :=
  congrArg SelectionVector.mk (take_set_succ (by rw [sel.size]; exact room) idx)

end SelectionBuffer

/-- Every column is an array of the largest batch size. -/
structure ColumnBatch.Sized (batch : ColumnBatch) : Prop where
  exchangeTsNs : batch.exchangeTsNs.length = SelectionVector.maxBatchSize
  receiveTsNs : batch.receiveTsNs.length = SelectionVector.maxBatchSize
  sequence : batch.sequence.length = SelectionVector.maxBatchSize
  instrumentId : batch.instrumentId.length = SelectionVector.maxBatchSize
  eventType : batch.eventType.length = SelectionVector.maxBatchSize
  side : batch.side.length = SelectionVector.maxBatchSize
  flags : batch.flags.length = SelectionVector.maxBatchSize
  priceTicks : batch.priceTicks.length = SelectionVector.maxBatchSize
  quantity : batch.quantity.length = SelectionVector.maxBatchSize
  venueId : batch.venueId.length = SelectionVector.maxBatchSize
  sourceId : batch.sourceId.length = SelectionVector.maxBatchSize
  tradeOrOrderId : batch.tradeOrOrderId.length = SelectionVector.maxBatchSize

/-- What `execute_events` keeps from one batch to the next. -/
structure Buffers where
  batch : ColumnBatch
  sized : batch.Sized
  inSel : SelectionBuffer
  outSel : SelectionBuffer

namespace VectorExecutor

/-- The loop that fills the columns of the batch from row `startRow` on. -/
def loadInto (events : List CanonicalEvent) (startRow count : Nat) (batch : ColumnBatch) :
    ColumnBatch :=
  let current := (events.drop startRow).take count
  { size := count
    exchangeTsNs := fill 0 (current.map (·.exchangeTsNs)) batch.exchangeTsNs
    receiveTsNs := fill 0 (current.map (·.receiveTsNs)) batch.receiveTsNs
    sequence := fill 0 (current.map (·.sequence)) batch.sequence
    instrumentId := fill 0 (current.map (·.instrumentId)) batch.instrumentId
    eventType := fill 0 (current.map (·.eventType.value)) batch.eventType
    side := fill 0 (current.map (·.side.value)) batch.side
    flags := fill 0 (current.map (·.flags)) batch.flags
    priceTicks := fill 0 (current.map (·.priceTicks)) batch.priceTicks
    quantity := fill 0 (current.map (·.quantity)) batch.quantity
    venueId := fill 0 (current.map (·.venueId)) batch.venueId
    sourceId := fill 0 (current.map (·.sourceId)) batch.sourceId
    tradeOrOrderId := fill 0 (current.map (·.tradeOrOrderId)) batch.tradeOrOrderId }

theorem loadInto_sized (events : List CanonicalEvent) (startRow count : Nat)
    {batch : ColumnBatch} (sized : batch.Sized) :
    (loadInto events startRow count batch).Sized where
  exchangeTsNs := (length_fill ..).trans sized.exchangeTsNs
  receiveTsNs := (length_fill ..).trans sized.receiveTsNs
  sequence := (length_fill ..).trans sized.sequence
  instrumentId := (length_fill ..).trans sized.instrumentId
  eventType := (length_fill ..).trans sized.eventType
  side := (length_fill ..).trans sized.side
  flags := (length_fill ..).trans sized.flags
  priceTicks := (length_fill ..).trans sized.priceTicks
  quantity := (length_fill ..).trans sized.quantity
  venueId := (length_fill ..).trans sized.venueId
  sourceId := (length_fill ..).trans sized.sourceId
  tradeOrOrderId := (length_fill ..).trans sized.tradeOrOrderId

/-- The loops and kernels of the filter: the rows that pass are written over `outSel`, the
first of them to its front. -/
def keepInto {T : Type} (zero : T) (data : List T) (test : T → Bool)
    (inSel outSel : SelectionBuffer) : SelectionBuffer :=
  inSel.live.indices.foldl (fun out idx => if test (data.getD idx.toNat zero) then
    out.push idx else out) outSel.clear

def evaluateFilterInto (batch : ColumnBatch) (filterExpr : Option Expression)
    (inSel outSel : SelectionBuffer) :
    SelectionBuffer :=
  match filterExpr with
  | some (.binaryOp op (.columnRef col _ _) (.literal value _ _) _ _) =>
    let litInt := value.toInt64
    if col = nameBytes "price_ticks" then
      keepInto 0 batch.priceTicks (matchesPrice op litInt) inSel outSel
    else if col = nameBytes "instrument_id" then
      keepInto 0 batch.instrumentId (matchesInstrument op litInt.toUInt64.toUInt32) inSel outSel
    else if col = nameBytes "quantity" then
      keepInto 0 batch.quantity (matchesQuantity op litInt.toUInt64.toUInt32) inSel outSel
    else if col = nameBytes "venue_id" then
      keepInto 0 batch.venueId (fun value => value = litInt.toUInt64.toUInt16) inSel outSel
    else inSel
  | _ => inSel

def batchLoopInto (query : QueryStmt) (events : List CanonicalEvent) :
    Nat → Nat → Buffers → ExecState → ExecState
  | 0, _, _, state => state
  | fuel + 1, rowOffset, buffers, state =>
    if events.length ≤ rowOffset then state
    else
      let curBatchSize := min SelectionVector.maxBatchSize (events.length - rowOffset)
      let batch := loadInto events rowOffset curBatchSize buffers.batch
      let sized := loadInto_sized events rowOffset curBatchSize buffers.sized
      let inSel := buffers.inSel.initAll curBatchSize
      let outSel :=
        if query.whereExpr.isSome then
          evaluateFilterInto batch query.whereExpr inSel buffers.outSel else inSel
      let state := { state with rowsMatched := state.rowsMatched + UInt64.ofNat outSel.live.count }
      if hasAggregates query then
        batchLoopInto query events fuel (rowOffset + curBatchSize) ⟨batch, sized, inSel, outSel⟩
          (aggregateBatch batch outSel.live state)
      else
        let rows := collectRows batch query outSel.live.indices state.rows
        let state := { state with rows := rows }
        if limitReached query.limit rows then state
        else batchLoopInto query events fuel (rowOffset + curBatchSize)
          ⟨batch, sized, inSel, outSel⟩ state

/-- `execute_events` on buffers that hold anything. -/
def executeInto (buffers : Buffers) (events : List CanonicalEvent) (query : QueryStmt) :
    QueryResult :=
  let state := batchLoopInto query events events.length 0 buffers ExecState.initial
  { columnNames := query.projections.map columnName
    rows := if hasAggregates query then
      state.rows ++ [query.projections.map (aggregateCell state)] else state.rows
    rowsScanned := UInt64.ofNat events.length
    rowsMatched := state.rowsMatched }

theorem live_foldl_push (keep : UInt16 → Bool) (rows : List UInt16) {out : SelectionBuffer}
    (room : out.count + rows.length ≤ SelectionVector.maxBatchSize) :
    (rows.foldl (fun out idx => if keep idx then out.push idx else out) out).live =
      ⟨out.live.indices ++ rows.filter keep⟩ := by
  induction rows generalizing out with
  | nil => simp
  | cons idx rest ih =>
    rw [List.length_cons] at room
    rw [List.foldl_cons, List.filter_cons]
    by_cases kept : keep idx = true
    · have pushed := @SelectionBuffer.live_push out (by omega) idx
      have more : (out.push idx).count + rest.length ≤ SelectionVector.maxBatchSize := by
        change out.count + 1 + rest.length ≤ _
        omega
      rw [if_pos kept, if_pos kept, ih more, pushed, List.append_assoc, List.singleton_append]
    · rw [if_neg kept, if_neg kept, ih (by omega)]

theorem live_keepInto {T : Type} (zero : T) (data : List T) (test : T → Bool)
    (inSel outSel : SelectionBuffer) :
    (keepInto zero data test inSel outSel).live = keepRows zero data test inSel.live := by
  have room : outSel.clear.count + inSel.live.indices.length ≤ SelectionVector.maxBatchSize := by
    have few := List.length_take_le' inSel.count inSel.indices
    rw [inSel.size] at few
    exact Nat.zero_add _ ▸ few
  exact live_foldl_push _ _ room

/-- The first `n` entries of two columns are the same. -/
def SameRows {T : Type} (zero : T) (n : Nat) (data other : List T) : Prop :=
  ∀ i < n, data.getD i zero = other.getD i zero

/-- The two batches agree on the first `n` rows of every column a query can read. -/
structure SameBatch (n : Nat) (batch fresh : ColumnBatch) : Prop where
  exchangeTsNs : SameRows 0 n batch.exchangeTsNs fresh.exchangeTsNs
  receiveTsNs : SameRows 0 n batch.receiveTsNs fresh.receiveTsNs
  sequence : SameRows 0 n batch.sequence fresh.sequence
  instrumentId : SameRows 0 n batch.instrumentId fresh.instrumentId
  priceTicks : SameRows 0 n batch.priceTicks fresh.priceTicks
  quantity : SameRows 0 n batch.quantity fresh.quantity
  venueId : SameRows 0 n batch.venueId fresh.venueId
  sourceId : SameRows 0 n batch.sourceId fresh.sourceId
  tradeOrOrderId : SameRows 0 n batch.tradeOrOrderId fresh.tradeOrOrderId

theorem loadInto_same (events : List CanonicalEvent) (startRow count : Nat)
    {batch : ColumnBatch} (sized : batch.Sized)
    (few : count ≤ SelectionVector.maxBatchSize) (inside : startRow + count ≤ events.length) :
    SameBatch count (loadInto events startRow count batch)
    (loadBatchFromEvents ((events.drop startRow).take count)) := by
  have length : ((events.drop startRow).take count).length = count := by
    rw [List.length_take, List.length_drop]
    omega
  have column {T : Type} (zero : T) (field : CanonicalEvent → T) {old : List T}
      (room : old.length = SelectionVector.maxBatchSize) :
      SameRows zero count (fill 0 (((events.drop startRow).take count).map field) old)
        (((events.drop startRow).take count).map field) := by
    intro i bound
    exact getD_fill zero (by rw [List.length_map, length]; omega)
      (by rw [List.length_map, length]; exact bound)
  exact {
    exchangeTsNs := column 0 _ sized.exchangeTsNs
    receiveTsNs := column 0 _ sized.receiveTsNs
    sequence := column 0 _ sized.sequence
    instrumentId := column 0 _ sized.instrumentId
    priceTicks := column 0 _ sized.priceTicks
    quantity := column 0 _ sized.quantity
    venueId := column 0 _ sized.venueId
    sourceId := column 0 _ sized.sourceId
    tradeOrOrderId := column 0 _ sized.tradeOrOrderId }

section Same

variable {n : Nat} {batch fresh : ColumnBatch}
  (same : SameBatch n batch fresh) {sel : SelectionVector}
  (inside : ∀ idx ∈ sel.indices, idx.toNat < n)

theorem keepRows_same {T : Type} {zero : T} {data other : List T}
    (same : SameRows zero n data other) (test : T → Bool)
    (inside : ∀ idx ∈ sel.indices, idx.toNat < n) :
    keepRows zero data test sel = keepRows zero other test sel := by
  unfold keepRows
  congr 1
  exact List.filter_congr fun idx member => by rw [same idx.toNat (inside idx member)]

theorem visitedValues_same {T : Type} {zero : T} {data other : List T}
    (same : SameRows zero n data other)
    (inside : ∀ idx ∈ sel.indices, idx.toNat < n) :
    SimdDispatcher.visitedValues zero data (some sel.indices) sel.count =
      SimdDispatcher.visitedValues zero other (some sel.indices) sel.count := by
  unfold SimdDispatcher.visitedValues
  rw [visited_all]
  exact List.map_congr_left fun idx member => same idx.toNat (inside idx member)

include same

theorem projectCells_same {idx : Nat} (bound : idx < n) (item : SelectItem) :
    projectCells batch idx item = projectCells fresh idx item := by
  unfold projectCells
  rw [same.exchangeTsNs idx bound, same.receiveTsNs idx bound, same.sequence idx bound,
    same.instrumentId idx bound, same.priceTicks idx bound, same.quantity idx bound,
    same.venueId idx bound, same.sourceId idx bound, same.tradeOrOrderId idx bound]

theorem collectRows_same (query : QueryStmt) {indices : List UInt16}
    (inside : ∀ idx ∈ indices, idx.toNat < n)
    (rows : List (List Int)) :
    collectRows batch query indices rows = collectRows fresh query indices rows := by
  induction indices generalizing rows with
  | nil => rfl
  | cons idx rest ih =>
    have cells : projectCells batch idx.toNat = projectCells fresh idx.toNat :=
      funext fun item => projectCells_same same (inside idx List.mem_cons_self) item
    unfold collectRows
    dsimp only
    rw [cells, ih fun other listed => inside other (List.mem_cons_of_mem _ listed)]

include inside

theorem aggregateBatch_same (state : ExecState) :
    aggregateBatch batch sel state = aggregateBatch fresh sel state := by
  have prices := visitedValues_same same.priceTicks inside
  have quantities := visitedValues_same same.quantity inside
  unfold aggregateBatch SimdDispatcher.sumI64 SimdDispatcher.minI64
    SimdDispatcher.maxI64 SimdDispatcher.sumU32
    SimdDispatcher.minU32 SimdDispatcher.maxU32
  rw [prices, quantities]

end Same

/-- A filter of another shape than a column against a literal selects every row. -/
structure OtherShape (filterExpr : Option Expression) : Prop where
  differs : ∀ op col l₁ c₁ value l₂ c₂ l₃ c₃,
    filterExpr ≠ some (.binaryOp op (.columnRef col l₁ c₁) (.literal value l₂ c₂) l₃ c₃)

theorem evaluateFilter_other {filterExpr : Option Expression}
    (other : OtherShape filterExpr) (batch : ColumnBatch)
    (inSel : SelectionVector) : evaluateFilter batch filterExpr inSel = inSel := by
  unfold evaluateFilter
  split
  · exact absurd rfl (other.differs _ _ _ _ _ _ _ _ _)
  · rfl

theorem evaluateFilterInto_other {filterExpr : Option Expression}
    (other : OtherShape filterExpr) (batch : ColumnBatch)
    (inSel outSel : SelectionBuffer) :
    evaluateFilterInto batch filterExpr inSel outSel = inSel := by
  unfold evaluateFilterInto
  split
  · exact absurd rfl (other.differs _ _ _ _ _ _ _ _ _)
  · rfl

theorem live_evaluateFilterInto {n : Nat} {batch fresh : ColumnBatch}
    (same : SameBatch n batch fresh)
    (filterExpr : Option Expression) {inSel : SelectionBuffer}
    (inside : ∀ idx ∈ inSel.live.indices, idx.toNat < n)
    (outSel : SelectionBuffer) :
    (evaluateFilterInto batch filterExpr inSel outSel).live =
      evaluateFilter fresh filterExpr inSel.live := by
  by_cases shape : OtherShape filterExpr
  · rw [evaluateFilterInto_other shape, evaluateFilter_other shape]
  have leaf : ∃ op col l₁ c₁ value l₂ c₂ l₃ c₃,
      filterExpr = some (.binaryOp op (.columnRef col l₁ c₁) (.literal value l₂ c₂) l₃ c₃) := by
    by_contra none
    refine shape
      ⟨fun op col l₁ c₁ value l₂ c₂ l₃ c₃ is => none ⟨op, col, l₁, c₁, value, l₂, c₂, l₃, c₃, is⟩⟩
  obtain ⟨op, col, l₁, c₁, value, l₂, c₂, l₃, c₃, rfl⟩ := leaf
  unfold evaluateFilterInto evaluateFilter
  dsimp only
  rw [filterPrice_eq, filterInstrument_eq, SimdDispatcher.filterEqU16, filterRows_eq]
  by_cases price : col = nameBytes "price_ticks"
  · rw [if_pos price, if_pos price, live_keepInto]
    exact keepRows_same same.priceTicks _ inside
  rw [if_neg price, if_neg price]
  by_cases instrument : col = nameBytes "instrument_id"
  · rw [if_pos instrument, if_pos instrument, live_keepInto]
    exact keepRows_same same.instrumentId _ inside
  rw [if_neg instrument, if_neg instrument]
  by_cases quantity : col = nameBytes "quantity"
  · rw [if_pos quantity, if_pos quantity, live_keepInto]
    exact keepRows_same same.quantity _ inside
  rw [if_neg quantity, if_neg quantity]
  by_cases venue : col = nameBytes "venue_id"
  · rw [if_pos venue, if_pos venue, live_keepInto]
    exact keepRows_same same.venueId _ inside
  rw [if_neg venue, if_neg venue]

theorem take_batch (events : List CanonicalEvent) (rowOffset : Nat) :
    (events.drop rowOffset).take (min SelectionVector.maxBatchSize (events.length - rowOffset)) =
      (events.drop rowOffset).take SelectionVector.maxBatchSize := by
  rw [← List.length_drop, ← List.take_eq_take_min]

theorem drop_batch (events : List CanonicalEvent) (rowOffset : Nat) :
    events.drop (rowOffset + min SelectionVector.maxBatchSize (events.length - rowOffset)) =
      (events.drop rowOffset).drop SelectionVector.maxBatchSize := by
  rw [List.drop_drop]
  by_cases full : SelectionVector.maxBatchSize ≤ events.length - rowOffset
  · rw [Nat.min_eq_left full]
  · rw [List.drop_eq_nil_of_le (by omega), List.drop_eq_nil_of_le (by omega)]

theorem batchLoopInto_eq (query : QueryStmt) (events : List CanonicalEvent)
    (fuel rowOffset : Nat) (buffers : Buffers)
    (state : ExecState) :
    batchLoopInto query events fuel rowOffset buffers state =
      batchLoop query fuel (events.drop rowOffset) state := by
  induction fuel generalizing rowOffset buffers state with
  | zero => rfl
  | succ fuel ih =>
    unfold batchLoopInto batchLoop
    by_cases done : events.length ≤ rowOffset
    · rw [if_pos done, if_pos (List.drop_eq_nil_of_le done)]
    have some : events.drop rowOffset ≠ [] := by
      rw [ne_eq, List.drop_eq_nil_iff]
      exact done
    rw [if_neg done, if_neg some]
    simp only [ih]
    generalize size : min SelectionVector.maxBatchSize (events.length - rowOffset) = n
    have current := take_batch events rowOffset
    have next := drop_batch events rowOffset
    rw [size] at current next
    have length : ((events.drop rowOffset).take SelectionVector.maxBatchSize).length = n := by
      rw [List.length_take, List.length_drop, size]
    have same := loadInto_same events rowOffset n buffers.sized (by omega) (by omega)
    rw [current] at same
    -- The selection of the batch is the one made on fresh lists, and lies within the batch.
    have all : (buffers.inSel.initAll n).live = SelectionVector.initAll n :=
      SelectionBuffer.live_initAll _ n
    have inside : ∀ idx ∈ (buffers.inSel.initAll n).live.indices, idx.toNat < n := by
      rw [all]
      exact fun idx member => mem_initAll member
    have chosen : (if query.whereExpr.isSome then
        evaluateFilterInto (loadInto events rowOffset n buffers.batch)
        query.whereExpr (buffers.inSel.initAll n) buffers.outSel
          else buffers.inSel.initAll n).live =
        selectBatch query.whereExpr
          ((events.drop rowOffset).take SelectionVector.maxBatchSize) := by
      unfold selectBatch
      dsimp only
      rw [length]
      split
      · rw [live_evaluateFilterInto same _ inside, all]
      · exact all
    have selected : ∀ idx ∈ (selectBatch query.whereExpr
        ((events.drop rowOffset).take SelectionVector.maxBatchSize)).indices, idx.toNat < n := by
      intro idx member
      have listed := List.mem_map_of_mem (f := UInt16.toNat) member
      rw [selectBatch_eq _ (List.length_take_le _ _)] at listed
      exact length ▸ positions_lt listed
    rw [chosen, aggregateBatch_same same selected, collectRows_same same query selected, next]

theorem executeInto_eq (buffers : Buffers) (events : List CanonicalEvent) (query : QueryStmt) :
    executeInto buffers events query = executeEvents events query := by
  unfold executeInto executeEvents
  rw [batchLoopInto_eq, List.drop_zero]

def projectRow (query : QueryStmt) (event : CanonicalEvent) : List Int :=
  query.projections.flatMap (projectCells (loadBatchFromEvents [event]) 0)

def selectsAlone (filterExpr : Option Expression) (event : CanonicalEvent) : Bool :=
  (selectBatch filterExpr [event]).count = 1

def capped (limit : UInt64) (rows : List (List Int)) : List (List Int) :=
  if limit = 0 then rows else rows.take limit.toNat

theorem selectsAlone_eq (filterExpr : Option Expression) (event : CanonicalEvent) :
    selectsAlone filterExpr event = passes filterExpr event := by
  have alone := congrArg List.length (@selectBatch_eq filterExpr [event] (by decide : 1 ≤ 1024))
  rw [List.length_map, positions_cons] at alone
  unfold selectsAlone SelectionVector.count
  rw [alone]
  cases passes filterExpr event <;> rfl

theorem map_positions_of {T U : Type} (test : T → Bool) {row : Nat → U}
    {one : T → U} {items : List T}
    (same : ∀ i item, items[i]? = some item → row i = one item) :
    (positions test items).map row = (items.filter test).map one := by
  induction items generalizing row with
  | nil => rfl
  | cons first rest ih =>
    have head : row 0 = one first := same 0 first rfl
    have tail := @ih (row ∘ Nat.succ) fun i item found => same (i + 1) item found
    rw [positions_cons, List.map_append, List.map_map, tail, List.filter_cons]
    by_cases passed : test first = true
    · simp [passed, head]
    · simp [passed]

theorem projectCells_alone {events : List CanonicalEvent} {i : Nat} {event : CanonicalEvent}
    (found : events[i]? = some event) (item : SelectItem) :
    projectCells (loadBatchFromEvents events) i item =
      projectCells (loadBatchFromEvents [event]) 0 item := by
  have column {T : Type} (zero : T) (field : CanonicalEvent → T) :
      (events.map field).getD i zero = ([event].map field).getD 0 zero := by
    rw [List.getD_eq_getElem?_getD, List.getElem?_map, found]
    rfl
  simp only [projectCells, loadBatchFromEvents, column]

theorem rows_selectBatch (query : QueryStmt) {events : List CanonicalEvent}
    (short : events.length ≤ SelectionVector.maxBatchSize) :
    (selectBatch query.whereExpr events).indices.map
      (fun idx => query.projections.flatMap (projectCells (loadBatchFromEvents events) idx.toNat)) =
      (events.filter (passes query.whereExpr)).map (projectRow query) := by
  have one (i : Nat) (event : CanonicalEvent) (found : events[i]? = some event) :
      query.projections.flatMap (projectCells (loadBatchFromEvents events) i) =
        projectRow query event := by
    unfold projectRow
    rw [funext fun item => projectCells_alone found item]
  rw [← map_positions_of (passes query.whereExpr) one,
    ← selectBatch_eq query.whereExpr short, List.map_map]
  rfl

theorem limitReached_iff (limit : UInt64) (rows : List (List Int)) :
    limitReached limit rows = true ↔ limit ≠ 0 ∧ limit.toNat ≤ rows.length := by
  unfold limitReached
  rw [decide_eq_true_iff]
  exact and_congr_left fun _ => UInt64.pos_iff_ne_zero

theorem capped_below {limit : UInt64} {rows : List (List Int)}
    (below : ¬ limitReached limit rows = true) :
    capped limit rows = rows := by
  rw [limitReached_iff] at below
  unfold capped
  split
  · rfl
  · rename_i limited
    have few : ¬ limit.toNat ≤ rows.length := fun many => below ⟨limited, many⟩
    exact List.take_of_length_le (by omega)

theorem capped_reached {limit : UInt64} {rows : List (List Int)}
    (reached : limitReached limit (capped limit rows) = true)
    (more : List (List Int)) : capped limit (rows ++ more) = capped limit rows := by
  rw [limitReached_iff] at reached
  unfold capped at reached ⊢
  rw [if_neg reached.1] at reached ⊢
  rw [if_neg reached.1,
    List.take_append_of_le_length (le_trans reached.2 (List.length_take_le' _ _))]

theorem collectRows_eq (batch : ColumnBatch) (query : QueryStmt) (indices : List UInt16)
    {rows : List (List Int)}
    (below : ¬ limitReached query.limit rows = true) :
    collectRows batch query indices rows = capped query.limit
      (rows ++ indices.map fun idx =>
        query.projections.flatMap (projectCells batch idx.toNat)) := by
  induction indices generalizing rows with
  | nil => rw [List.map_nil, List.append_nil, capped_below below, collectRows]
  | cons idx rest ih =>
    have joined := List.append_cons rows (query.projections.flatMap (projectCells batch idx.toNat))
      (rest.map fun idx => query.projections.flatMap (projectCells batch idx.toNat))
    unfold collectRows
    dsimp only
    rw [List.map_cons, joined]
    generalize added : rows ++ [query.projections.flatMap (projectCells batch idx.toNat)] = longer
    split
    · rename_i reached
      -- The row that reaches the limit is the last one under it.
      have whole : capped query.limit longer = longer := by
        rw [limitReached_iff] at reached below
        rw [capped, if_neg reached.1, List.take_of_length_le]
        rw [← added, List.length_append, List.length_singleton]
        have few : ¬ query.limit.toNat ≤ rows.length := fun many => below ⟨reached.1, many⟩
        omega
      rw [capped_reached (by rw [whole]; exact reached), whole]
    · rename_i still
      exact ih still

theorem batchLoop_rows {query : QueryStmt} (plain : hasAggregates query = false) {fuel : Nat}
    {events : List CanonicalEvent}
    {state : ExecState} (enough : events.length ≤ fuel)
    (below : ¬ limitReached query.limit state.rows = true) :
    (batchLoop query fuel events state).rows =
      capped query.limit
        (state.rows ++ (events.filter (passes query.whereExpr)).map (projectRow query)) := by
  induction fuel generalizing events state with
  | zero =>
    have none : events = [] := List.length_eq_zero_iff.mp (by omega)
    subst none
    exact (List.append_nil _).symm ▸ (capped_below below).symm
  | succ fuel ih =>
    unfold batchLoop
    split
    · rename_i none
      subst none
      exact (List.append_nil _).symm ▸ (capped_below below).symm
    · rename_i some
      have positive := List.length_pos_iff.mpr some
      have left : (events.drop SelectionVector.maxBatchSize).length ≤ fuel := by
        rw [List.length_drop, SelectionVector.maxBatchSize]
        omega
      have batch :=
        collectRows_eq (loadBatchFromEvents (events.take SelectionVector.maxBatchSize)) query
        (selectBatch query.whereExpr (events.take SelectionVector.maxBatchSize)).indices below
      rw [rows_selectBatch query (List.length_take_le _ _)] at batch
      dsimp only
      rw [plain, batch]
      conv_rhs => rw [← List.take_append_drop SelectionVector.maxBatchSize events,
        List.filter_append, List.map_append,
        ← List.append_assoc]
      rw [if_neg Bool.false_ne_true]
      split
      · rename_i reached
        exact (capped_reached reached _).symm
      · rename_i still
        have first : capped query.limit (state.rows ++
            ((events.take SelectionVector.maxBatchSize).filter (passes query.whereExpr)).map
              (projectRow query)) =
            state.rows ++
              ((events.take SelectionVector.maxBatchSize).filter (passes query.whereExpr)).map
              (projectRow query) := by
          rw [limitReached_iff] at still
          unfold capped at still ⊢
          split
          · rfl
          · rename_i limited
            rw [if_neg limited, List.length_take] at still
            exact List.take_of_length_le (by
              have few : ¬ query.limit.toNat ≤ min query.limit.toNat _ :=
                fun many => still ⟨limited, many⟩
              omega)
        rw [ih left (by dsimp only; exact still)]
        dsimp only
        rw [first]

/-- The rows of a query without aggregates, whatever the buffers held before: each event that the
filter selects in a batch of its own, projected, in order, up to the limit. -/
theorem executeInto_rows (buffers : Buffers) (events : List CanonicalEvent) (query : QueryStmt)
    (plain : hasAggregates query = false) :
    (executeInto buffers events query).rows =
      capped query.limit
        ((events.filter (selectsAlone query.whereExpr)).map (projectRow query)) := by
  have start : ¬ limitReached query.limit ExecState.initial.rows = true := by
    rw [limitReached_iff]
    rintro ⟨limited, few⟩
    exact limited (UInt64.toNat_inj.mp (Nat.le_zero.mp few))
  have alone : selectsAlone query.whereExpr = passes query.whereExpr :=
    funext (selectsAlone_eq query.whereExpr)
  rw [executeInto_eq, executeEvents, alone, plain, if_neg Bool.false_ne_true,
    batchLoop_rows plain (Nat.le_refl _) start]
  rfl

def usedBuffers : Buffers where
  batch :=
    { size := 1024
      exchangeTsNs := List.replicate 1024 1
      receiveTsNs := List.replicate 1024 1
      sequence := List.replicate 1024 1
      instrumentId := List.replicate 1024 1
      eventType := List.replicate 1024 1
      side := List.replicate 1024 1
      flags := List.replicate 1024 1
      priceTicks := List.replicate 1024 1
      quantity := List.replicate 1024 1
      venueId := List.replicate 1024 1
      sourceId := List.replicate 1024 1
      tradeOrOrderId := List.replicate 1024 1 }
  sized := by
    constructor <;> exact List.length_replicate
  inSel := ⟨List.replicate 1024 1, 1024, List.length_replicate⟩
  outSel := ⟨List.replicate 1024 1, 1024, List.length_replicate⟩

/-- `SELECT quantity FROM trades WHERE quantity > 5 LIMIT 1` -/
def largeQuery : QueryStmt :=
  ⟨[⟨some (.columnRef (nameBytes "quantity") 1 8), [], false⟩], nameBytes "trades",
    some largeFilter, [], [], none, [], [],
    1, 1, 1⟩

theorem executeInto_rows_large : hasAggregates largeQuery = false ∧
    (executeInto usedBuffers [sampleQuote, sampleQuote] largeQuery).rows =
      capped largeQuery.limit
        (([sampleQuote, sampleQuote].filter (selectsAlone largeQuery.whereExpr)).map
          (projectRow largeQuery)) :=
  ⟨rfl, executeInto_rows usedBuffers [sampleQuote, sampleQuote] largeQuery rfl⟩

end VectorExecutor

end VectorTick
