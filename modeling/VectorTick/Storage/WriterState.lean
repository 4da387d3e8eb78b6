import VectorTick.Storage.SegmentWriter

/-! What a writer holds after a run of accepted events: the events, column by column, and
statistics that bound them. -/

set_option autoImplicit false

namespace VectorTick.SegmentWriter

open Foundation

/-- The state of a writer in terms of the events it accepted. -/
structure Holds (writer : SegmentWriter) (events : List CanonicalEvent) : Prop where
  rowCount : writer.rowCount = events.length
  exchangeTsNs : writer.exchangeTsNs = events.map (·.exchangeTsNs)
  receiveTsNs : writer.receiveTsNs = events.map (·.receiveTsNs)
  sequences : writer.sequences = events.map (·.sequence)
  instrumentIds : writer.instrumentIds = events.map (·.instrumentId)
  eventTypes : writer.eventTypes = events.map (·.eventType.value)
  sides : writer.sides = events.map (·.side.value)
  flags : writer.flags = events.map (·.flags)
  priceTicks : writer.priceTicks = events.map (·.priceTicks)
  quantities : writer.quantities = events.map (·.quantity)
  venueIds : writer.venueIds = events.map (·.venueId)
  sourceIds : writer.sourceIds = events.map (·.sourceId)
  tradeOrOrderIds : writer.tradeOrOrderIds = events.map (·.tradeOrOrderId)
  limit : writer.rowCount ≤ writer.maxRows
  allocated : rowBytes * writer.maxRows < 2 ^ 63

/-- The range statistics bound what has been added. -/
structure Bounds (writer : SegmentWriter) (events : List CanonicalEvent) : Prop where
  timestamps : ∀ event ∈ events, writer.minTimestamp ≤ event.exchangeTsNs ∧
    event.exchangeTsNs ≤ writer.maxTimestamp
  sequences : ∀ event ∈ events, writer.minSequence ≤ event.sequence ∧
    event.sequence ≤ writer.maxSequence

theorem addEvent_answers (writer : SegmentWriter) (event : CanonicalEvent) :
    Answers (writer.addEvent event) := by
  unfold addEvent
  exact .guard fun _ => (Event.validate_answers event).bind fun _ _ => answers_ok _

theorem addEvent_ok {writer after : SegmentWriter} {event : CanonicalEvent}
    (added : writer.addEvent event = .ok after) :
    writer.rowCount < writer.maxRows ∧ Event.validate event = .ok () ∧
      after = {
        (writer.pushRow event).updateStatistics event with rowCount := writer.rowCount + 1 } := by
  unfold addEvent at added
  by_cases full : writer.isFull = true
  · simp [full, failWith, bind, Except.bind] at added
  · cases valid : Event.validate event with
    | error stop => simp [full, valid, bind, Except.bind] at added
    | ok accepted =>
      simp only [full, valid, bind, Except.bind, pure, Except.pure, Bool.false_eq_true, if_false,
        Except.ok.injEq] at added
      refine ⟨?_, rfl, added.symm⟩
      simpa [isFull] using full

theorem Holds.step {writer after : SegmentWriter} {events : List CanonicalEvent}
    {event : CanonicalEvent}
    (holds : Holds writer events) (added : writer.addEvent event = .ok after) :
    Holds after (events ++ [event]) := by
  obtain ⟨room, _, rfl⟩ := addEvent_ok added
  exact {
    rowCount := by simp [holds.rowCount]
    exchangeTsNs := by simp [pushRow, updateStatistics, holds.exchangeTsNs]
    receiveTsNs := by simp [pushRow, updateStatistics, holds.receiveTsNs]
    sequences := by simp [pushRow, updateStatistics, holds.sequences]
    instrumentIds := by simp [pushRow, updateStatistics, holds.instrumentIds]
    eventTypes := by simp [pushRow, updateStatistics, holds.eventTypes]
    sides := by simp [pushRow, updateStatistics, holds.sides]
    flags := by simp [pushRow, updateStatistics, holds.flags]
    priceTicks := by simp [pushRow, updateStatistics, holds.priceTicks]
    quantities := by simp [pushRow, updateStatistics, holds.quantities]
    venueIds := by simp [pushRow, updateStatistics, holds.venueIds]
    sourceIds := by simp [pushRow, updateStatistics, holds.sourceIds]
    tradeOrOrderIds := by simp [pushRow, updateStatistics, holds.tradeOrOrderIds]
    limit := room
    allocated := holds.allocated }

theorem Bounds.step {writer after : SegmentWriter} {events : List CanonicalEvent}
    {event : CanonicalEvent}
    (bounds : Bounds writer events) (added : writer.addEvent event = .ok after) :
    Bounds after (events ++ [event]) := by
  obtain ⟨_, _, rfl⟩ := addEvent_ok added
  constructor
  · intro other member
    simp only [pushRow, updateStatistics, List.mem_append, List.mem_singleton] at member ⊢
    rcases member with earlier | rfl
    · have old := bounds.timestamps other earlier
      grind
    · grind
  · intro other member
    simp only [pushRow, updateStatistics, List.mem_append, List.mem_singleton] at member ⊢
    rcases member with earlier | rfl
    · have old := bounds.sequences other earlier
      grind
    · grind

theorem new_holds {segmentId : UInt64} {maxRows : Nat} {writer : SegmentWriter}
    (created : new segmentId maxRows = .ok writer) :
    Holds writer [] ∧ Bounds writer [] ∧ writer.segmentId = segmentId ∧
      writer.maxRows = maxRows := by
  unfold new at created
  split at created
  · cases created
  · rename_i fits
    cases created
    refine ⟨?_, ⟨by simp, by simp⟩, rfl, rfl⟩
    constructor <;> simp only [List.length_nil, List.map_nil]
    · exact Nat.zero_le _
    · omega

theorem addEvents_run {writer after : SegmentWriter} {before events : List CanonicalEvent}
    (holds : Holds writer before) (bounds : Bounds writer before)
    (added : writer.addEvents events = .ok after) :
    Holds after (before ++ events) ∧ Bounds after (before ++ events) ∧
      (∀ event ∈ events, Event.Valid event) := by
  induction events generalizing writer before with
  | nil =>
    cases added
    rw [List.append_nil]
    exact ⟨holds, bounds, by simp⟩
  | cons event rest ih =>
    rw [addEvents] at added
    cases first : writer.addEvent event with
    | error stop =>
      rw [first] at added
      cases added
    | ok middle =>
      rw [first] at added
      obtain ⟨later, range, valid⟩ := ih (holds.step first) (bounds.step first) added
      rw [List.append_assoc] at later range
      refine ⟨later, range, ?_⟩
      intro other member
      rcases List.mem_cons.mp member with rfl | inRest
      · exact Event.valid_of_validate (addEvent_ok first).2.1
      · exact valid other inRest

/-- A writer that was made and then fed a list of events holds that list. -/
theorem holds_of_addEvents {segmentId : UInt64} {maxRows : Nat} {fresh writer : SegmentWriter}
    {events : List CanonicalEvent} (created : new segmentId maxRows = .ok fresh)
    (added : fresh.addEvents events = .ok writer) : Holds writer events := by
  obtain ⟨holds, bounds, _⟩ := new_holds created
  simpa using (addEvents_run holds bounds added).1

theorem bounds_of_addEvents {segmentId : UInt64} {maxRows : Nat} {fresh writer : SegmentWriter}
    {events : List CanonicalEvent} (created : new segmentId maxRows = .ok fresh)
    (added : fresh.addEvents events = .ok writer) : Bounds writer events := by
  obtain ⟨holds, bounds, _⟩ := new_holds created
  simpa using (addEvents_run holds bounds added).2.1

theorem addEvents_accepts (writer : SegmentWriter) (events : List CanonicalEvent)
    (valid : ∀ event ∈ events, Event.validate event = .ok ())
    (room : writer.rowCount + events.length ≤ writer.maxRows) :
    ∃ after, writer.addEvents events = .ok after := by
  induction events generalizing writer with
  | nil => exact ⟨writer, rfl⟩
  | cons event rest ih =>
    rw [List.length_cons] at room
    have notFull : writer.isFull = false := by
      simp only [isFull, decide_eq_false_iff_not]
      omega
    obtain ⟨after, added⟩ := ih
      ({ (writer.pushRow event).updateStatistics event with rowCount := writer.rowCount + 1 })
      (fun event member => valid event (by simp [member]))
        (by change writer.rowCount + 1 + rest.length ≤ writer.maxRows; omega)
    refine ⟨after, ?_⟩
    rw [addEvents, addEvent, valid event (by simp), notFull]
    exact added

theorem Holds.allocated_rows {writer : SegmentWriter} {events : List CanonicalEvent}
    (holds : Holds writer events) :
    rowBytes * events.length < 2 ^ 63 := by
  have limit := holds.limit
  rw [holds.rowCount] at limit
  exact Nat.lt_of_le_of_lt (Nat.mul_le_mul_left _ limit) holds.allocated

end VectorTick.SegmentWriter
