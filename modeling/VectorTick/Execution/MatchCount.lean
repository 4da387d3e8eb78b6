import VectorTick.Execution.Aggregates
import VectorTick.Execution.Batches

/-! The number of matches a query reports.

It grows by the matches of each batch, and the limit leaves the loop over the batches, so the
matches of the batches behind are not in it. -/

set_option autoImplicit false

namespace VectorTick.VectorExecutor

open Foundation Vts1 Query

def selected (query : QueryStmt) (events : List CanonicalEvent) : List CanonicalEvent :=
  events.filter (selectsAlone query.whereExpr)

def firstBatches (batches : Nat) (events : List CanonicalEvent) : List CanonicalEvent :=
  events.take (SelectionVector.maxBatchSize * batches)

def laterBatches (batches : Nat) (events : List CanonicalEvent) : List CanonicalEvent :=
  events.drop (SelectionVector.maxBatchSize * batches)

/-- The limit applies to the rows the loop collects. -/
def Limited (query : QueryStmt) : Prop := hasAggregates query = false ∧ query.limit ≠ 0

/-- Some number of batches holds as many matches as the limit, and there is a match behind them. -/
def MatchBehindLimit (query : QueryStmt) (events : List CanonicalEvent) : Prop :=
  Limited query ∧
    ∃ batches, query.limit.toNat ≤ (selected query (firstBatches batches events)).length ∧
    selected query (laterBatches batches events) ≠ []

theorem selected_append (query : QueryStmt) (first second : List CanonicalEvent) :
    selected query (first ++ second) = selected query first ++ selected query second :=
  List.filter_append ..

theorem selected_batches (query : QueryStmt) (batches : Nat) (events : List CanonicalEvent) :
    (selected query events).length =
      (selected query (firstBatches batches events)).length +
        (selected query (laterBatches batches events)).length := by
  rw [← List.length_append, ← selected_append, firstBatches, laterBatches, List.take_append_drop]

theorem firstBatches_succ (batches : Nat) (events : List CanonicalEvent) :
    firstBatches (batches + 1) events =
      events.take SelectionVector.maxBatchSize ++ firstBatches batches
        (events.drop SelectionVector.maxBatchSize) := by
  rw [firstBatches, firstBatches, Nat.mul_succ, Nat.add_comm, List.take_add]

theorem laterBatches_succ (batches : Nat) (events : List CanonicalEvent) :
    laterBatches (batches + 1) events =
      laterBatches batches (events.drop SelectionVector.maxBatchSize) := by
  rw [laterBatches, laterBatches, Nat.mul_succ, Nat.add_comm, List.drop_drop]

theorem selected_later {query : QueryStmt} {batches more : Nat}
    {events : List CanonicalEvent} (le : batches ≤ more)
    (some : selected query (laterBatches more events) ≠ []) :
    selected query (laterBatches batches events) ≠ [] := by
  obtain ⟨extra, rfl⟩ := Nat.exists_eq_add_of_le le
  rw [laterBatches, Nat.mul_add, ← List.drop_drop] at some
  intro none
  rw [selected, List.filter_eq_nil_iff] at none
  exact some (List.filter_eq_nil_iff.mpr fun event member =>
    none event (List.mem_of_mem_drop member))

/-- The loop has counted the matches of the first `batches` batches. It stops at the end of the
events, or behind the first batch at which the limit is reached. -/
structure StopsBehind (query : QueryStmt) (events : List CanonicalEvent)
    (state after : ExecState) (batches : Nat) :
    Prop where
  matched : after.rowsMatched =
    state.rowsMatched + UInt64.ofNat (selected query (firstBatches batches events)).length
  ended : laterBatches batches events = [] ∨
    (Limited query ∧
      query.limit.toNat ≤ state.rows.length + (selected query (firstBatches batches events)).length)
  first : Limited query → ∀ other,
    query.limit.toNat ≤ state.rows.length + (selected query (firstBatches other events)).length →
      batches ≤ other

theorem stopsBehind_nil (query : QueryStmt) (state : ExecState) :
    StopsBehind query [] state state 0 where
  matched := (UInt64.add_zero _).symm
  ended := .inl rfl
  first := fun _ _ _ => Nat.zero_le _

theorem selected_eq (query : QueryStmt) (events : List CanonicalEvent) :
    selected query events = events.filter (passes query.whereExpr) := by
  rw [selected, funext (selectsAlone_eq query.whereExpr)]

theorem some_batches {query : QueryStmt} {events : List CanonicalEvent} {state : ExecState}
    (limited : Limited query)
    (below : ¬ limitReached query.limit state.rows = true) {batches : Nat}
    (reached : query.limit.toNat ≤
      state.rows.length + (selected query (firstBatches batches events)).length) :
    ∃ rest, batches = rest + 1 := by
  cases batches with
  | zero => exact absurd ((limitReached_iff ..).mpr ⟨limited.2, reached⟩) below
  | succ rest => exact ⟨rest, rfl⟩

theorem StopsBehind.cons {query : QueryStmt} {events : List CanonicalEvent}
    {state next after : ExecState} {batches : Nat}
    (rest : StopsBehind query (events.drop SelectionVector.maxBatchSize) next after batches)
    (matched : next.rowsMatched = state.rowsMatched +
      UInt64.ofNat (selected query (events.take SelectionVector.maxBatchSize)).length)
    (rows : Limited query → next.rows.length =
      state.rows.length + (selected query (events.take SelectionVector.maxBatchSize)).length)
    (below : ¬ limitReached query.limit state.rows = true) :
    StopsBehind query events state after (batches + 1) where
  matched := by
    rw [rest.matched, matched, firstBatches_succ, selected_append, List.length_append,
      UInt64.ofNat_add, UInt64.add_assoc]
  ended := by
    rw [laterBatches_succ, firstBatches_succ, selected_append, List.length_append]
    refine rest.ended.imp_right fun reached => ⟨reached.1, ?_⟩
    have enough := reached.2
    rw [rows reached.1] at enough
    omega
  first := by
    intro limited other reached
    obtain ⟨fewer, rfl⟩ := some_batches limited below reached
    rw [firstBatches_succ, selected_append, List.length_append, ← Nat.add_assoc,
      ← rows limited] at reached
    exact Nat.succ_le_succ (rest.first limited fewer reached)

theorem aggregateBatch_rows (batch : ColumnBatch) (outSel : SelectionVector) (state : ExecState) :
    (aggregateBatch batch outSel state).rows = state.rows := by
  unfold aggregateBatch
  split <;> rfl

theorem aggregateBatch_rowsMatched (batch : ColumnBatch)
    (outSel : SelectionVector) (state : ExecState) :
    (aggregateBatch batch outSel state).rowsMatched = state.rowsMatched := by
  unfold aggregateBatch
  split <;> rfl

theorem limitReached_capped (limit : UInt64) (rows : List (List Int)) :
    limitReached limit (capped limit rows) = limitReached limit rows := by
  rw [Bool.eq_iff_iff, limitReached_iff, limitReached_iff]
  refine and_congr_right fun limited => ?_
  rw [capped, if_neg limited, List.length_take]
  omega

theorem batchLoop_stops (query : QueryStmt) {fuel : Nat}
    {events : List CanonicalEvent} {state : ExecState}
    (enough : events.length ≤ fuel) (below : ¬ limitReached query.limit state.rows = true) :
    ∃ batches, StopsBehind query events state (batchLoop query fuel events state) batches := by
  induction fuel generalizing events state with
  | zero =>
    have none : events = [] := List.length_eq_zero_iff.mp (by omega)
    subst none
    exact ⟨0, stopsBehind_nil query state⟩
  | succ fuel ih =>
    unfold batchLoop
    by_cases none : events = []
    · subst none
      exact ⟨0, stopsBehind_nil query state⟩
    have positive := List.length_pos_iff.mpr none
    have left : (events.drop SelectionVector.maxBatchSize).length ≤ fuel := by
      rw [List.length_drop, SelectionVector.maxBatchSize]
      omega
    have short : (events.take SelectionVector.maxBatchSize).length ≤ SelectionVector.maxBatchSize :=
      List.length_take_le ..
    have counted : (selectBatch query.whereExpr (events.take SelectionVector.maxBatchSize)).count =
        (selected query (events.take SelectionVector.maxBatchSize)).length := by
      rw [selected_eq, count_selectBatch query.whereExpr short]
    rw [if_neg none]
    dsimp only
    rw [counted]
    cases aggregates : hasAggregates query with
    | true =>
      obtain ⟨batches, rest⟩ := @ih (events.drop SelectionVector.maxBatchSize) (aggregateBatch
        (loadBatchFromEvents (events.take SelectionVector.maxBatchSize))
        (selectBatch query.whereExpr (events.take SelectionVector.maxBatchSize))
        { state with rowsMatched := state.rowsMatched +
            UInt64.ofNat (selected query (events.take SelectionVector.maxBatchSize)).length })
        left (by rw [aggregateBatch_rows]; exact below)
      refine ⟨batches + 1, rest.cons (aggregateBatch_rowsMatched ..) (fun limited => ?_) below⟩
      exact absurd limited.1 (by rw [aggregates]; exact Bool.noConfusion)
    | false =>
      have rows :=
        collectRows_eq (loadBatchFromEvents (events.take SelectionVector.maxBatchSize)) query
        (selectBatch query.whereExpr (events.take SelectionVector.maxBatchSize)).indices below
      rw [rows_selectBatch query short, ← selected_eq] at rows
      rw [rows, limitReached_capped, if_neg Bool.false_ne_true]
      by_cases reached : limitReached query.limit
          (state.rows ++ (selected query (events.take SelectionVector.maxBatchSize)).map
            (projectRow query)) = true
      · rw [if_pos reached]
        rw [limitReached_iff, List.length_append, List.length_map] at reached
        have one : firstBatches 1 events = events.take SelectionVector.maxBatchSize := by
          rw [firstBatches, Nat.mul_one]
        refine ⟨1, by rw [one], .inr ⟨⟨aggregates,
          reached.1⟩, by rw [one]; exact reached.2⟩, fun limited other enough => ?_⟩
        obtain ⟨fewer, rfl⟩ := some_batches limited below enough
        exact Nat.succ_le_succ (Nat.zero_le _)
      · rw [if_neg reached, capped_below reached]
        obtain ⟨batches, rest⟩ := @ih (events.drop SelectionVector.maxBatchSize) { state with
          rowsMatched := state.rowsMatched +
            UInt64.ofNat (selected query (events.take SelectionVector.maxBatchSize)).length
          rows := state.rows ++ (selected query (events.take SelectionVector.maxBatchSize)).map
            (projectRow query) }
          left reached
        exact ⟨batches + 1,
          rest.cons rfl (fun _ => by rw [List.length_append, List.length_map]) below⟩

theorem StopsBehind.counts_all {query : QueryStmt} {events : List CanonicalEvent}
    {state after : ExecState} {batches : Nat}
    (stops : StopsBehind query events state after batches) (fresh : state.rows = []) :
    (selected query (firstBatches batches events)).length = (selected query events).length ↔
      ¬ MatchBehindLimit query events := by
  have split := selected_batches query batches events
  constructor
  · rintro whole ⟨limited, other, reached, behind⟩
    have early : batches ≤ other :=
      stops.first limited other (by rw [fresh]; exact reached.trans (Nat.le_add_left ..))
    have some := List.length_pos_iff.mpr (selected_later early behind)
    omega
  · intro clear
    have none : selected query (laterBatches batches events) = [] := by
      rcases stops.ended with nothing | ⟨limited, reached⟩
      · rw [nothing]
        rfl
      · by_contra behind
        rw [fresh, List.length_nil, Nat.zero_add] at reached
        exact clear ⟨limited, batches, reached, behind⟩
    rw [split, none, List.length_nil, Nat.add_zero]

/-- The reported number of matches is the number of events that the filter selects one by one,
exactly if no match lies behind the batches that hold as many matches as the limit. -/
theorem rowsMatched_iff (buffers : Buffers) (query : QueryStmt) {events : List CanonicalEvent}
    (addressable : events.length < 2 ^ 64) :
    (executeInto buffers events query).rowsMatched.toNat =
      (events.filter (selectsAlone query.whereExpr)).length ↔
      ¬ MatchBehindLimit query events := by
  have start : ¬ limitReached query.limit ExecState.initial.rows = true := by
    rw [limitReached_iff]
    rintro ⟨limited, few⟩
    exact limited (UInt64.toNat_inj.mp (Nat.le_zero.mp few))
  obtain ⟨batches, stops⟩ := batchLoop_stops query (Nat.le_refl events.length) start
  have few : (selected query (firstBatches batches events)).length < 2 ^ 64 :=
    lt_of_le_of_lt ((List.length_filter_le ..).trans (List.length_take_le' ..)) addressable
  rw [executeInto_eq, executeEvents, stops.matched, ExecState.initial, UInt64.zero_add,
    UInt64.toNat_ofNat_of_lt' few]
  exact stops.counts_all rfl

theorem rowsMatched_large :
    (executeInto usedBuffers [sampleQuote, sampleQuote] largeQuery).rowsMatched.toNat =
      ([sampleQuote, sampleQuote].filter (selectsAlone largeQuery.whereExpr)).length ↔
      ¬ MatchBehindLimit largeQuery [sampleQuote, sampleQuote] :=
  rowsMatched_iff usedBuffers largeQuery (by decide)

/-- `SELECT quantity LIMIT 1` -/
def firstQuery : QueryStmt :=
  ⟨[⟨some (.columnRef (nameBytes "quantity") 1 8), [], false⟩], [], none, [],
    [], none, [], [], 1, 1, 1⟩

theorem selected_firstQuery (n : Nat) :
    selected firstQuery (List.replicate n sampleQuote) = List.replicate n sampleQuote :=
  List.filter_replicate_of_pos (by decide)

/-- One event more than a batch holds, and the last one is not counted. -/
theorem rowsMatched_misses_batch :
    (executeInto usedBuffers (List.replicate 1025 sampleQuote) firstQuery).rowsMatched = 1024 ∧
      ((List.replicate 1025 sampleQuote).filter (selectsAlone firstQuery.whereExpr)).length =
        1025 := by
  have all := congrArg List.length (selected_firstQuery 1025)
  rw [List.length_replicate] at all
  refine ⟨?_, all⟩
  obtain ⟨batches, stops⟩ :=
    @batchLoop_stops firstQuery 1025 (List.replicate 1025 sampleQuote) ExecState.initial
    (Nat.le_of_eq List.length_replicate) (by decide)
  have chosen
      (n : Nat) : (selected firstQuery (firstBatches n (List.replicate 1025 sampleQuote))).length =
      min (1024 * n) 1025 := by
    rw [firstBatches, List.take_replicate, selected_firstQuery, List.length_replicate,
      SelectionVector.maxBatchSize]
  have early : batches ≤ 1 := stops.first ⟨rfl, by decide⟩ 1 (by rw [chosen]; decide)
  have late : batches ≠ 0 := by
    rintro rfl
    rcases stops.ended with nothing | ⟨-, reached⟩
    · exact absurd (congrArg List.length nothing)
        (by rw [laterBatches, List.drop_replicate, List.length_replicate]; decide)
    · rw [chosen] at reached
      exact absurd reached (by decide)
  have one : batches = 1 := by omega
  subst one
  have counted := stops.matched
  rw [chosen] at counted
  rw [executeInto_eq, executeEvents, List.length_replicate, counted]
  rfl

end VectorTick.VectorExecutor
