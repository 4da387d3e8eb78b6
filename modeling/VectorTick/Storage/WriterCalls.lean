import VectorTick.Foundation.Folds
import VectorTick.Storage.WriterBounds

/-! Runs of calls on one writer: events accepted or refused, and resets in between. -/

set_option autoImplicit false

namespace VectorTick.SegmentWriter

open Foundation

/-- `add_event` with the writer it leaves, whatever it returns. -/
def addEventCall (event : CanonicalEvent) : StateM SegmentWriter (Except Stop Unit) := do
  let writer ← get
  if writer.isFull then
    return failWith .limitExceeded "Segment is full"
  match Event.validate event with
  | .error stop => return .error stop
  | .ok () =>
    modify (·.pushRow event)
    modify (·.updateStatistics event)
    modify fun writer => { writer with rowCount := writer.rowCount + 1 }
    return .ok ()

def reset (writer : SegmentWriter) (newSegmentId : UInt64) : SegmentWriter :=
  { writer with
    segmentId := newSegmentId
    rowCount := 0
    minTimestamp := 0xFFFFFFFFFFFFFFFF, maxTimestamp := 0
    minSequence := 0xFFFFFFFFFFFFFFFF, maxSequence := 0
    minInstrumentId := 0xFFFFFFFFFFFFFFFF, maxInstrumentId := 0
    minPrice := Int64.maxValue, maxPrice := Int64.minValue
    minQuantity := 0xFFFFFFFF, maxQuantity := 0
    exchangeTsNs := [], receiveTsNs := [], sequences := [], instrumentIds :=
      [], eventTypes := [], sides := []
    flags := [], priceTicks := [], quantities := [], venueIds := [], sourceIds :=
      [], tradeOrOrderIds := [] }

/-- A call on a writer. -/
inductive Call where
  | addEvent (event : CanonicalEvent)
  | reset (newSegmentId : UInt64)
  deriving DecidableEq, Repr

def call : Call → StateM SegmentWriter (Except Stop Unit)
  | .addEvent event => addEventCall event
  | .reset newSegmentId => do
    modify (·.reset newSegmentId)
    return .ok ()

def perform (writer : SegmentWriter) : List Call → List (Call × Except Stop Unit) × SegmentWriter
  | [] => ([], writer)
  | made :: rest =>
    let (outcome, writer) := call made writer
    let (outcomes, writer) := writer.perform rest
    ((made, outcome) :: outcomes, writer)

def accepted (events : List CanonicalEvent) : List (Call × Except Stop Unit) → List CanonicalEvent
  | [] => events
  | (.reset _, _) :: rest => accepted [] rest
  | (.addEvent event, .ok ()) :: rest => accepted (events ++ [event]) rest
  | (.addEvent _, .error _) :: rest => accepted events rest

theorem addEventCall_eq (writer : SegmentWriter) (event : CanonicalEvent) :
    addEventCall event writer =
      match writer.addEvent event with
      | .ok after => (.ok (), after)
      | .error stop => (.error stop, writer) := by
  unfold addEvent
  change (if writer.isFull = true then
    _ else _ : StateM SegmentWriter (Except Stop Unit)) writer = _
  by_cases full : writer.isFull = true
  · rw [if_pos full, if_pos full]
    rfl
  · rw [if_neg full, if_neg full]
    cases Event.validate event with
    | error stop => rfl
    | ok done => rfl

/-- The range statistics are exact over the accepted events; a range over no events is the empty
one a comparison with any value replaces. -/
structure Exact (writer : SegmentWriter) (events : List CanonicalEvent) : Prop where
  minTimestamp : IsLeastFrom 0xFFFFFFFFFFFFFFFF (events.map (·.exchangeTsNs)) writer.minTimestamp
  maxTimestamp : IsGreatestFrom 0 (events.map (·.exchangeTsNs)) writer.maxTimestamp
  minSequence : IsLeastFrom 0xFFFFFFFFFFFFFFFF (events.map (·.sequence)) writer.minSequence
  maxSequence : IsGreatestFrom 0 (events.map (·.sequence)) writer.maxSequence
  minInstrumentId :
    IsLeastFrom 0xFFFFFFFFFFFFFFFF (events.map (·.instrumentId.toUInt64)) writer.minInstrumentId
  maxInstrumentId : IsGreatestFrom 0 (events.map (·.instrumentId.toUInt64)) writer.maxInstrumentId
  minPrice : IsLeastFrom Int64.maxValue (events.map (·.priceTicks)) writer.minPrice
  maxPrice : IsGreatestFrom Int64.minValue (events.map (·.priceTicks)) writer.maxPrice
  minQuantity : IsLeastFrom 0xFFFFFFFF (events.map (·.quantity)) writer.minQuantity
  maxQuantity : IsGreatestFrom 0 (events.map (·.quantity)) writer.maxQuantity

theorem word_le_last (value : UInt64) : value ≤ 0xFFFFFFFFFFFFFFFF := by
  rw [UInt64.le_iff_toNat_le]
  have bound := value.toNat_lt
  have last : (0xFFFFFFFFFFFFFFFF : UInt64).toNat = 2 ^ 64 - 1 := rfl
  omega

theorem half_le_last (value : UInt32) : value ≤ 0xFFFFFFFF := by
  rw [UInt32.le_iff_toNat_le]
  have bound := value.toNat_lt
  have last : (0xFFFFFFFF : UInt32).toNat = 2 ^ 32 - 1 := rfl
  omega

theorem Exact.step {writer after : SegmentWriter} {events : List CanonicalEvent}
    {event : CanonicalEvent}
    (exact : Exact writer events) (added : writer.addEvent event = .ok after) :
    Exact after (events ++ [event]) := by
  obtain ⟨_, _, rfl⟩ := addEvent_ok added
  constructor <;> rw [List.map_append, List.map_singleton]
  · exact exact.minTimestamp.step word_le_last _
  · exact exact.maxTimestamp.step (fun _ => UInt64.zero_le) _
  · exact exact.minSequence.step word_le_last _
  · exact exact.maxSequence.step (fun _ => UInt64.zero_le) _
  · exact exact.minInstrumentId.step word_le_last _
  · exact exact.maxInstrumentId.step (fun _ => UInt64.zero_le) _
  · exact exact.minPrice.step Int64.le_maxValue _
  · exact exact.maxPrice.step Int64.minValue_le _
  · exact exact.minQuantity.step half_le_last _
  · exact exact.maxQuantity.step (fun _ => UInt32.zero_le) _

/-- What holds between a writer and the events it accepted since the last reset. -/
structure Represents (maxRows : Nat) (writer : SegmentWriter)
    (events : List CanonicalEvent) : Prop where
  holds : Holds writer events
  exact : Exact writer events
  limit : writer.maxRows = maxRows

theorem new_eq_reset {writer : SegmentWriter} {events : List CanonicalEvent}
    (holds : Holds writer events)
    (segmentId : UInt64) : new segmentId writer.maxRows = .ok (writer.reset segmentId) := by
  have allocated := holds.allocated
  rw [new, if_neg (by omega)]
  rfl

theorem new_represents {segmentId : UInt64} {maxRows : Nat} {writer : SegmentWriter}
    (created : new segmentId maxRows = .ok writer) : Represents maxRows writer [] := by
  obtain ⟨holds, _, _, limit⟩ := new_holds created
  refine ⟨holds, ?_, limit⟩
  unfold new at created
  split at created
  · cases created
  · cases created
    constructor <;> exact .inl ⟨rfl, rfl⟩

theorem exact_of_addEvents {segmentId : UInt64} {maxRows : Nat} {fresh writer : SegmentWriter}
    {events : List CanonicalEvent} (created : new segmentId maxRows = .ok fresh)
    (added : fresh.addEvents events = .ok writer) : Exact writer events := by
  suffices run : ∀ (before : List CanonicalEvent) (start : SegmentWriter), Exact start before →
      start.addEvents events = .ok writer → Exact writer (before ++ events) from
    run [] fresh (new_represents created).exact added
  clear added
  induction events with
  | nil =>
    intro before start exact added
    cases added
    rwa [List.append_nil]
  | cons event rest ih =>
    intro before start exact added
    rw [addEvents] at added
    cases first : start.addEvent event with
    | error stop =>
      rw [first] at added
      cases added
    | ok middle =>
      rw [first] at added
      have later := ih (before ++ [event]) middle (exact.step first) added
      rwa [List.append_assoc] at later

theorem call_represents {maxRows : Nat} {writer : SegmentWriter} {events : List CanonicalEvent}
    (known : Represents maxRows writer events) (made : Call) :
    Represents maxRows (call made writer).2 (accepted events [(made, (call made writer).1)]) := by
  cases made with
  | reset newSegmentId =>
    have created := new_eq_reset known.holds newSegmentId
    rw [known.limit] at created
    exact new_represents created
  | addEvent event =>
    rw [call, addEventCall_eq]
    cases added : writer.addEvent event with
    | error stop => exact known
    | ok after =>
      obtain ⟨room, valid, rfl⟩ := addEvent_ok added
      exact ⟨known.holds.step added, known.exact.step added, known.limit⟩

theorem accepted_cons (events : List CanonicalEvent) (first : Call × Except Stop Unit)
    (rest : List (Call × Except Stop Unit)) :
    accepted events (first :: rest) = accepted (accepted events [first]) rest := by
  obtain ⟨made, outcome⟩ := first
  cases made with
  | reset newSegmentId => rfl
  | addEvent event =>
    cases outcome with
    | error stop => rfl
    | ok done => rfl

theorem perform_represents {maxRows : Nat} {writer : SegmentWriter} {events : List CanonicalEvent}
    (known : Represents maxRows writer events) (calls : List Call) :
    Represents maxRows (writer.perform calls).2 (accepted events (writer.perform calls).1) := by
  induction calls generalizing writer events with
  | nil => exact known
  | cons made rest ih =>
    have stepped := ih (call_represents known made)
    rw [← accepted_cons] at stepped
    exact stepped

/-- Over any run of calls the columns are the events accepted since the last reset, the range
statistics are exact over them, a refused event changes nothing, and a reset restores the state of
a new writer. -/
theorem calls_represent {segmentId : UInt64} {maxRows : Nat}
    {fresh writer : SegmentWriter} {calls : List Call}
    {outcomes : List (Call × Except Stop Unit)} (created : new segmentId maxRows = .ok fresh)
    (performed : fresh.perform calls = (outcomes, writer)) :
    Holds writer (accepted [] outcomes) ∧ Exact writer (accepted [] outcomes) ∧
      writer.maxRows = maxRows ∧
      (∀ event stop after, addEventCall event writer = (.error stop, after) → after = writer) ∧
      ∀ newSegmentId, new newSegmentId maxRows = .ok (writer.reset newSegmentId) := by
  have known := perform_represents (new_represents created) calls
  rw [performed] at known
  refine ⟨known.holds, known.exact, known.limit, ?_, ?_⟩
  · intro event stop after refused
    rw [addEventCall_eq] at refused
    cases added : writer.addEvent event with
    | ok later =>
      rw [added] at refused
      cases refused
    | error other =>
      rw [added] at refused
      cases refused
      rfl
  · intro newSegmentId
    have made := new_eq_reset known.holds newSegmentId
    rw [known.limit] at made
    exact made

theorem calls_represent_quotes :
    ∃ fresh outcomes writer, new 1 1 = .ok fresh ∧
      fresh.perform [.addEvent quoteEvent, .addEvent quoteEvent, .reset 2, .addEvent quoteEvent] =
        (outcomes, writer) ∧
      Holds writer (accepted [] outcomes) ∧
        Exact writer (accepted [] outcomes) ∧ writer.maxRows = 1 ∧
      (∀ event stop after, addEventCall event writer = (.error stop, after) → after = writer) ∧
      ∀ newSegmentId, new newSegmentId 1 = .ok (writer.reset newSegmentId) := by
  obtain ⟨fresh, created⟩ : ∃ fresh, new 1 1 = .ok fresh := ⟨_, rfl⟩
  generalize performed :
    fresh.perform [.addEvent quoteEvent, .addEvent quoteEvent, .reset 2,
      .addEvent quoteEvent] = after
  obtain ⟨outcomes, writer⟩ := after
  exact ⟨fresh, outcomes, writer, created, performed, calls_represent created performed⟩

end VectorTick.SegmentWriter
