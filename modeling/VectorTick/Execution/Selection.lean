import VectorTick.Execution.VectorExecutor

/-! The rows the vectorised executor selects.

The filter looks at one row at a time, so a filter is a predicate on events and the batches only
cut the list of events up. The laws of filters are then laws of that predicate.
-/

set_option autoImplicit false

namespace VectorTick.VectorExecutor

open Foundation Vts1 Query

def matchesPrice (op : TokenType) (litInt value : Int64) : Bool :=
  if op = .greater then value > litInt
  else if op = .less then value < litInt
  else if op = .equal then value = litInt
  else if op = .notEqual then value ≠ litInt
  else if op = .greaterEqual then value ≥ litInt
  else if op = .lessEqual then value ≤ litInt
  else false

def matchesInstrument (op : TokenType) (target value : UInt32) : Bool :=
  if op = .equal then value = target
  else if op = .notEqual then value ≠ target
  else if op = .greater then value > target
  else if op = .less then value < target
  else false

def matchesQuantity (op : TokenType) (target value : UInt32) : Bool :=
  if op = .equal then value = target
  else if op = .notEqual then value ≠ target
  else if op = .greater then value > target
  else if op = .greaterEqual then value ≥ target
  else if op = .less then value < target
  else if op = .lessEqual then value ≤ target
  else false

/-- What `column op literal` asks of an event. -/
def matchesLeaf (op : TokenType) (col : Bytes) (value : UInt64) (event : CanonicalEvent) : Bool :=
  if col = nameBytes "price_ticks" then matchesPrice op value.toInt64 event.priceTicks
  else if col = nameBytes "instrument_id" then
    matchesInstrument op value.toUInt32 event.instrumentId
  else if col = nameBytes "quantity" then matchesQuantity op value.toUInt32 event.quantity
  else if col = nameBytes "venue_id" then event.venueId = value.toUInt16
  else true

/-- What a filter asks of an event. -/
def passes (filterExpr : Option Expression) (event : CanonicalEvent) : Bool :=
  match filterExpr with
  | some (.binaryOp op (.columnRef col _ _) (.literal value _ _) _ _) =>
    matchesLeaf op col value event
  | _ => true

/-- The positions of a list whose elements satisfy a test. -/
def positions {T : Type} (test : T → Bool) (items : List T) : List Nat :=
  (List.range items.length).filter fun i => (items[i]?).any test

theorem positions_cons {T : Type} (test : T → Bool) (first : T) (rest : List T) :
    positions test (first :: rest) =
      (if test first then [0] else []) ++ (positions test rest).map Nat.succ := by
  unfold positions
  rw [List.length_cons, List.range_succ_eq_map, List.filter_cons, List.filter_map]
  simp only [List.getElem?_cons_zero, Option.any_some]
  split <;> rfl

theorem mem_positions {T : Type} {test : T → Bool} {items : List T} {row : Nat} :
    row ∈ positions test items ↔ ∃ item, items[row]? = some item ∧ test item = true := by
  unfold positions
  rw [List.mem_filter, List.mem_range, Option.any_eq_true]
  constructor
  · rintro ⟨_, item, found, passed⟩
    exact ⟨item, found, passed⟩
  · rintro ⟨item, found, passed⟩
    exact ⟨(List.getElem?_eq_some_iff.mp found).1, item, found, passed⟩

theorem positions_append {T : Type} (test : T → Bool) (first second : List T) :
    positions test (first ++ second) =
      positions test first ++ (positions test second).map (first.length + ·) := by
  induction first with
  | nil => simp [positions]
  | cons item first ih =>
    rw [List.cons_append, positions_cons, positions_cons, ih, List.map_append,
      List.append_assoc, List.map_map]
    congr 2
    apply List.map_congr_left
    intro row _
    simp only [Function.comp_apply, List.length_cons]
    omega

theorem map_positions {T U : Type} (test : T → Bool) (field : T → U) (zero : U) (items : List T) :
    (positions test items).map (fun row => (items.map field).getD row zero) =
      (items.filter test).map field := by
  induction items with
  | nil => rfl
  | cons first rest ih =>
    rw [positions_cons, List.map_append, List.map_map, List.filter_cons]
    simp only [List.map_cons, Function.comp_def, List.getD_cons_succ, ih]
    by_cases passed : test first = true
    · simp [passed]
    · simp [passed]

theorem positions_lt {T : Type} {test : T → Bool} {items : List T} {row : Nat}
    (member : row ∈ positions test items) :
    row < items.length := by
  obtain ⟨_, found, _⟩ := mem_positions.mp member
  exact (List.getElem?_eq_some_iff.mp found).1

theorem visited_all (sel : SelectionVector) :
    SimdDispatcher.visited (some sel.indices) sel.count = sel.indices :=
  List.take_length

theorem filterRows_eq {T : Type} (zero : T) (data : List T) (test : T → Bool)
    (inSel : SelectionVector) :
    (⟨SimdDispatcher.filterRows zero test data
      (some inSel.indices) inSel.count⟩ : SelectionVector) =
      keepRows zero data test inSel := by
  unfold SimdDispatcher.filterRows
  rw [visited_all]
  rfl

theorem filterPrice_eq (batch : ColumnBatch) (op : TokenType) (litInt : Int64)
    (inSel : SelectionVector) :
    filterPrice batch op litInt inSel =
      keepRows 0 batch.priceTicks (matchesPrice op litInt) inSel := by
  unfold filterPrice
  split
  · rename_i same
    subst same
    exact filterRows_eq 0 batch.priceTicks _ inSel
  · split
    · rename_i same
      subst same
      exact filterRows_eq 0 batch.priceTicks _ inSel
    · rename_i greater less
      congr 1
      funext value
      simp [matchesPrice, greater, less]

theorem filterInstrument_eq (batch : ColumnBatch) (op : TokenType) (target : UInt32)
    (inSel : SelectionVector) :
    filterInstrument batch op target inSel =
      keepRows 0 batch.instrumentId (matchesInstrument op target) inSel := by
  unfold filterInstrument
  split
  · rename_i same
    subst same
    exact filterRows_eq 0 batch.instrumentId _ inSel
  · rename_i equal
    congr 1
    funext value
    simp [matchesInstrument, equal]

theorem keepRows_events {T : Type} (zero : T) (field : CanonicalEvent → T) (test : T → Bool)
    (events : List CanonicalEvent)
    (inSel : SelectionVector) (inside : ∀ idx ∈ inSel.indices, idx.toNat < events.length) :
    keepRows zero (events.map field) test inSel =
      ⟨inSel.indices.filter fun idx => (events[idx.toNat]?).any fun event =>
        test (field event)⟩ := by
  unfold keepRows
  congr 1
  apply List.filter_congr
  intro idx member
  have bound := inside idx member
  rw [List.getD_eq_getElem?_getD, List.getElem?_map, List.getElem?_eq_getElem bound]
  rfl

theorem keepRows_all {inSel : SelectionVector} {events : List CanonicalEvent}
    {test : CanonicalEvent → Bool}
    (inside : ∀ idx ∈ inSel.indices, idx.toNat < events.length)
    (every : ∀ event, test event = true) :
    inSel = ⟨inSel.indices.filter fun idx => (events[idx.toNat]?).any test⟩ := by
  have kept : (inSel.indices.filter fun idx => (events[idx.toNat]?).any test) = inSel.indices := by
    apply List.filter_eq_self.mpr
    intro idx member
    rw [List.getElem?_eq_getElem (inside idx member)]
    exact every _
  rw [kept]

theorem evaluateFilter_leaf (op : TokenType) (col : Bytes) (value : UInt64)
    (l₁ c₁ l₂ c₂ l₃ c₃ : Nat)
    (events : List CanonicalEvent) (inSel : SelectionVector)
    (inside : ∀ idx ∈ inSel.indices, idx.toNat < events.length) :
    evaluateFilter (loadBatchFromEvents events)
      (some (.binaryOp op (.columnRef col l₁ c₁) (.literal value l₂ c₂) l₃ c₃)) inSel =
      ⟨inSel.indices.filter fun idx => (events[idx.toNat]?).any (matchesLeaf op col value)⟩ := by
  have word : value.toInt64.toUInt64 = value := UInt64.toUInt64_toInt64 value
  unfold evaluateFilter matchesLeaf
  dsimp only
  rw [word]
  by_cases price : col = nameBytes "price_ticks"
  · simp only [if_pos price]
    rw [filterPrice_eq]
    exact keepRows_events 0 (·.priceTicks) _ events inSel inside
  simp only [if_neg price]
  by_cases instrument : col = nameBytes "instrument_id"
  · simp only [if_pos instrument]
    rw [filterInstrument_eq]
    exact keepRows_events 0 (·.instrumentId) _ events inSel inside
  simp only [if_neg instrument]
  by_cases quantity : col = nameBytes "quantity"
  · simp only [if_pos quantity]
    exact keepRows_events 0 (·.quantity) (matchesQuantity op value.toUInt32) events inSel inside
  simp only [if_neg quantity]
  by_cases venue : col = nameBytes "venue_id"
  · simp only [if_pos venue]
    rw [SimdDispatcher.filterEqU16, filterRows_eq]
    exact keepRows_events 0 (·.venueId) _ events inSel inside
  simp only [if_neg venue]
  exact keepRows_all inside fun _ => rfl

theorem evaluateFilter_eq (filterExpr : Option Expression) (events : List CanonicalEvent)
    (inSel : SelectionVector)
    (inside : ∀ idx ∈ inSel.indices, idx.toNat < events.length) :
    evaluateFilter (loadBatchFromEvents events) filterExpr inSel =
      ⟨inSel.indices.filter fun idx => (events[idx.toNat]?).any (passes filterExpr)⟩ := by
  unfold passes
  split
  · exact evaluateFilter_leaf _ _ _ _ _ _ _ _ _ events inSel inside
  · rename_i shape
    unfold evaluateFilter
    split
    · exact absurd rfl (shape _ _ _ _ _ _ _ _ _)
    · exact keepRows_all inside fun _ => rfl

theorem mem_initAll {n : Nat} {idx : UInt16} (member : idx ∈ (SelectionVector.initAll n).indices) :
    idx.toNat < n := by
  unfold SelectionVector.initAll at member
  obtain ⟨i, listed, rfl⟩ := List.mem_map.mp member
  have bound := List.mem_range.mp listed
  rw [SelectionVector.maxBatchSize] at bound
  rw [UInt16.toNat_ofNat', Nat.mod_eq_of_lt (by omega)]
  omega

/-- The selection of a batch is the list of the positions of the events that pass. -/
theorem selectBatch_eq (filterExpr : Option Expression) {events : List CanonicalEvent}
    (short : events.length ≤ SelectionVector.maxBatchSize) :
    (selectBatch filterExpr events).indices.map UInt16.toNat =
      positions (passes filterExpr) events := by
  have chosen : selectBatch filterExpr events =
      ⟨(SelectionVector.initAll events.length).indices.filter fun idx =>
        (events[idx.toNat]?).any (passes filterExpr)⟩ := by
    unfold selectBatch
    dsimp only
    split
    · exact evaluateFilter_eq filterExpr events _ fun idx member => mem_initAll member
    · rename_i none
      rw [Bool.not_eq_true, Option.isSome_eq_false_iff, Option.isNone_iff_eq_none] at none
      subst none
      exact keepRows_all (fun idx member => mem_initAll member) fun _ => rfl
  have numbers : ∀ i ∈ List.range events.length, (UInt16.ofNat i).toNat = i := by
    intro i listed
    have bound := List.mem_range.mp listed
    rw [SelectionVector.maxBatchSize] at short
    rw [UInt16.toNat_ofNat', Nat.mod_eq_of_lt (by omega)]
  rw [chosen, positions, SelectionVector.initAll, Nat.min_eq_left short,
    List.filter_map, List.map_map]
  rw [List.filter_congr fun i listed => show _ = (events[i]?).any (passes filterExpr) by
    rw [Function.comp_apply, numbers i listed]]
  conv_rhs => rw [← List.map_id (List.filter _ _)]
  apply List.map_congr_left
  intro i listed
  exact numbers i (List.mem_filter.mp listed).1

/-- The rows selected from row `offset` on, batch by batch. -/
def rowsFrom (filterExpr : Option Expression) : Nat → Nat → List CanonicalEvent → List Nat
  | 0, _, _ => []
  | fuel + 1, offset, events =>
    if events = [] then []
    else
      (selectBatch filterExpr (events.take SelectionVector.maxBatchSize)).indices.map
        (fun idx => offset + idx.toNat) ++
        rowsFrom filterExpr fuel (offset + SelectionVector.maxBatchSize)
          (events.drop SelectionVector.maxBatchSize)

/-- The rows that `execute_events` selects. -/
def selectedRows (filterExpr : Option Expression) (events : List CanonicalEvent) : List Nat :=
  rowsFrom filterExpr events.length 0 events

theorem rowsFrom_eq (filterExpr : Option Expression) {fuel : Nat} (offset : Nat)
    {events : List CanonicalEvent}
    (enough : events.length ≤ fuel) :
    rowsFrom filterExpr fuel offset events =
      (positions (passes filterExpr) events).map (offset + ·) := by
  induction fuel generalizing offset events with
  | zero =>
    have none : events = [] := List.length_eq_zero_iff.mp (by omega)
    subst none
    rfl
  | succ fuel ih =>
    unfold rowsFrom
    split
    · rename_i none
      subst none
      rfl
    · rename_i some
      have positive := List.length_pos_iff.mpr some
      have batch := selectBatch_eq filterExpr (events.length_take_le SelectionVector.maxBatchSize)
      have rows : (selectBatch filterExpr (events.take SelectionVector.maxBatchSize)).indices.map
          (fun idx => offset + idx.toNat) =
          (positions (passes filterExpr) (events.take SelectionVector.maxBatchSize)).map
            (offset + ·) := by
        rw [← batch, List.map_map]
        rfl
      rw [ih (offset + SelectionVector.maxBatchSize) (by
        rw [List.length_drop, SelectionVector.maxBatchSize]; omega), rows]
      conv_rhs => rw [← List.take_append_drop SelectionVector.maxBatchSize events,
        positions_append, List.map_append,
        List.map_map]
      congr 1
      -- Behind a batch that is not full there is nothing.
      by_cases full : SelectionVector.maxBatchSize ≤ events.length
      · apply List.map_congr_left
        intro row _
        rw [Function.comp_apply, List.length_take, Nat.min_eq_left full]
        omega
      · rw [List.drop_eq_nil_of_le (by omega)]
        rfl

theorem selectedRows_eq (filterExpr : Option Expression) (events : List CanonicalEvent) :
    selectedRows filterExpr events = positions (passes filterExpr) events := by
  rw [selectedRows, rowsFrom_eq filterExpr 0 (Nat.le_refl _)]
  simp

theorem mem_selectedRows {filterExpr : Option Expression}
    {events : List CanonicalEvent} {row : Nat} :
    row ∈ selectedRows filterExpr events ↔
      ∃ event, events[row]? = some event ∧ passes filterExpr event = true := by
  rw [selectedRows_eq, mem_positions]

end VectorTick.VectorExecutor
