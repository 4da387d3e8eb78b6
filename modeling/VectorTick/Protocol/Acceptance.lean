import VectorTick.Protocol.StreamRoundTrip
import VectorTick.Storage.SegmentWriter

/-! What the decoder lets through: the order of the market frames of a run, and the events that can
be stored.

The sequence check is skipped for control frames, but a control frame sets the sequence number the
check compares with. A heartbeat is the one market frame whose event is not validated.
-/

set_option autoImplicit false

namespace VectorTick.Vtp1

open Foundation

namespace Decoder

def messageType (data : Bytes) : UInt8 := (Frame.readHeader data).messageType

def frameSequence (data : Bytes) : UInt64 := (Frame.readHeader data).sequence

/-- The time an event gets: the argument, or the time of sending where the argument is zero. -/
def receiveTime (data : Bytes) (receiveTsNs : UInt64) : UInt64 :=
  if receiveTsNs > 0 then receiveTsNs else (Frame.readHeader data).sendTimestampNs

def payloadOf (data : Bytes) : Bytes := data.drop FrameHeader.size

def consumedBy (data : Bytes) : Nat :=
  FrameHeader.size + (Frame.readHeader data).payloadLength.toNat

/-- All of the frame is there and its header and checksum are right. -/
def Intact (data : Bytes) : Prop :=
  FrameHeader.size ≤ data.length ∧ consumedBy data ≤ data.length ∧
    Frame.validate (Frame.readHeader data) (payloadOf data) data.length = .ok ()

/-- The event as it is handed to the decoder of the payload. -/
def stamped (data : Bytes) (slot : CanonicalEvent) (receiveTsNs : UInt64) : CanonicalEvent :=
  { slot with receiveTsNs := receiveTime data receiveTsNs, sequence := frameSequence data }

def advanced (decoder : Decoder) (data : Bytes) : Decoder :=
  { decoder with lastSessionId := (Frame.readHeader
    data).sessionId, lastSequence := frameSequence data }

variable {decoder after : Decoder} {data : Bytes}
  {slot event : CanonicalEvent} {receiveTsNs : UInt64}

theorem readFrame_eq (data : Bytes) :
    Frame.readFrame data = if FrameHeader.size ≤ data.length ∧ consumedBy data ≤ data.length then
      some (Frame.readHeader data, payloadOf data, consumedBy data) else none := by
  unfold Frame.readFrame consumedBy payloadOf
  by_cases header : data.length < FrameHeader.size
  · rw [if_pos header, if_neg (by omega)]
  · rw [if_neg header]
    dsimp only
    by_cases whole : data.length < FrameHeader.size + (Frame.readHeader data).payloadLength.toNat
    · rw [if_pos whole, if_neg (by omega)]
    · rw [if_neg whole, if_pos (by omega)]

theorem decodeFrame_intact (intact : Intact data)
    (order : decoder.lastSequence < frameSequence data ∨ isControl (messageType data) = true) :
    decoder.decodeFrame data slot receiveTsNs =
      if isControl (messageType data) then
        ((decoder.advanced data).counted, stamped data slot receiveTsNs, .ok (consumedBy data))
      else match decodePayload (messageType data)
      (payloadOf data) (Frame.readHeader data).payloadLength
          (stamped data slot receiveTsNs) with
        | (event, .error stop) => ((decoder.advanced data).failed, event, .error stop)
        | (event, .ok ()) => ((decoder.advanced data).counted, event, .ok (consumedBy data)) := by
  have passes : ¬ ((Frame.readHeader data).sequence ≤ decoder.lastSequence ∧
      (!isControl (Frame.readHeader data).messageType) = true) := by
    rintro ⟨low, market⟩
    rcases order with later | control
    · exact UInt64.not_le.mpr later low
    · change (!isControl (messageType data)) = true at market
      rw [control] at market
      cases market
  unfold decodeFrame
  rw [readFrame_eq, if_pos ⟨intact.1, intact.2.1⟩]
  dsimp only
  rw [intact.2.2]
  dsimp only
  rw [if_neg passes]
  rfl

theorem decodeFrame_stays
    (refused : ¬ (Intact data ∧
      (decoder.lastSequence < frameSequence data ∨ isControl (messageType data) = true))) :
    ((decoder.decodeFrame data slot receiveTsNs).1 = decoder ∨
      (decoder.decodeFrame data slot receiveTsNs).1 = decoder.failed) ∧
      ∃ stop, (decoder.decodeFrame data slot receiveTsNs).2.2 = .error stop := by
  unfold decodeFrame
  rw [readFrame_eq]
  by_cases whole : FrameHeader.size ≤ data.length ∧ consumedBy data ≤ data.length
  · rw [if_pos whole]
    dsimp only
    cases checked : Frame.validate (Frame.readHeader data) (payloadOf data) data.length with
    | error stop => exact ⟨.inr rfl, stop, rfl⟩
    | ok _ =>
      have behind : (Frame.readHeader data).sequence ≤ decoder.lastSequence ∧
          (!isControl (Frame.readHeader data).messageType) = true := by
        by_contra ahead
        apply refused
        refine ⟨⟨whole.1, whole.2, checked⟩, ?_⟩
        by_cases control : isControl (messageType data) = true
        · exact .inr control
        · refine .inl (UInt64.not_le.mp fun low => ahead ⟨low, ?_⟩)
          change (!isControl (messageType data)) = true
          rw [Bool.not_eq_true] at control
          rw [control]
          rfl
      dsimp only
      rw [if_pos behind]
      exact ⟨.inr rfl, _, rfl⟩
  · rw [if_neg whole]
    exact ⟨.inl rfl, _, rfl⟩

theorem decodeFrame_refused
    (refused : ¬ (Intact data ∧
      (decoder.lastSequence < frameSequence data ∨ isControl (messageType data) = true))) :
    (decoder.decodeFrame data slot receiveTsNs).1.lastSequence = decoder.lastSequence ∧
      ∃ stop, (decoder.decodeFrame data slot receiveTsNs).2.2 = .error stop := by
  obtain ⟨stays, failed⟩ := @decodeFrame_stays decoder data slot receiveTsNs refused
  refine ⟨?_, failed⟩
  rcases stays with same | counted
  · rw [same]
  · rw [counted]
    rfl

theorem decoded_intact {consumed : Nat}
    (decoded : decoder.decodeFrame data slot receiveTsNs = (after, event, .ok consumed)) :
    Intact data ∧
      (decoder.lastSequence < frameSequence data ∨ isControl (messageType data) = true) := by
  by_contra refused
  obtain ⟨_, stop, failed⟩ := @decodeFrame_refused decoder data slot receiveTsNs refused
  rw [decoded] at failed
  cases failed

theorem decoded_market {consumed : Nat} (market : isControl (messageType data) = false)
    (decoded : decoder.decodeFrame data slot receiveTsNs = (after, event, .ok consumed)) :
    decodePayload (messageType data) (payloadOf data) (Frame.readHeader data).payloadLength
      (stamped data slot receiveTsNs) = (event, .ok ()) := by
  obtain ⟨intact, order⟩ := decoded_intact decoded
  rw [decodeFrame_intact intact order, market, if_neg Bool.false_ne_true] at decoded
  revert decoded
  split
  · intro decoded
    cases decoded
  · rename_i filled
    intro decoded
    cases decoded
    exact filled

/-- One call of `decode_frame`: the buffer, the caller's event and the time. -/
structure Call where
  data : Bytes
  slot : CanonicalEvent
  receiveTsNs : UInt64

def step (decoder : Decoder) (call : Call) : Decoder :=
  (decoder.decodeFrame call.data call.slot call.receiveTsNs).1

def decodesMarket (decoder : Decoder) (call : Call) : Bool :=
  match (decoder.decodeFrame call.data call.slot call.receiveTsNs).2.2 with
  | .ok _ => !isControl (messageType call.data)
  | .error _ => false

/-- The sequence numbers of the market frames a run decodes, in order. -/
def marketSequences : Decoder → List Call → List UInt64
  | _, [] => []
  | decoder, call :: rest =>
    if decoder.decodesMarket call then
      frameSequence call.data :: marketSequences (decoder.step call) rest
    else marketSequences (decoder.step call) rest

/-- A call with a control frame that is decoded. -/
def IsControlFrame (call : Call) : Prop :=
  Intact call.data ∧ isControl (messageType call.data) = true

theorem step_cases (decoder : Decoder) (call : Call) :
    (decoder.decodesMarket call = true ∧ decoder.lastSequence < frameSequence call.data ∧
      (decoder.step call).lastSequence = frameSequence call.data) ∨
    (decoder.decodesMarket call = false ∧ IsControlFrame call ∧
      (decoder.step call).lastSequence = frameSequence call.data) ∨
    (decoder.decodesMarket call = false ∧ decoder.lastSequence ≤
      (decoder.step call).lastSequence) := by
  unfold decodesMarket step
  by_cases taken : Intact call.data ∧
      (decoder.lastSequence < frameSequence call.data ∨ isControl (messageType call.data) = true)
  · obtain ⟨intact, order⟩ := taken
    rw [decodeFrame_intact intact order]
    by_cases control : isControl (messageType call.data) = true
    · rw [if_pos control]
      dsimp only
      rw [control]
      exact .inr (.inl ⟨rfl, ⟨intact, control⟩, rfl⟩)
    · have later : decoder.lastSequence < frameSequence call.data := order.resolve_right control
      rw [if_neg control]
      rw [Bool.not_eq_true] at control
      generalize decodePayload (messageType call.data) (payloadOf call.data)
        (Frame.readHeader call.data).payloadLength
        (stamped call.data call.slot call.receiveTsNs) = filled
      obtain ⟨event, outcome⟩ := filled
      cases outcome with
      | error stop => exact .inr (.inr ⟨rfl, UInt64.le_of_lt later⟩)
      | ok _ =>
        dsimp only
        rw [control]
        exact .inl ⟨rfl, later, rfl⟩
  · obtain ⟨same, stop, failed⟩ :=
      @decodeFrame_refused decoder call.data call.slot call.receiveTsNs taken
    rw [same, failed]
    exact .inr (.inr ⟨rfl, UInt64.le_refl _⟩)

/-- No control frame of the run goes back behind a market frame decoded before it. -/
def Steady (decoder : Decoder) (calls : List Call) : Prop :=
  ∀ before call rest, calls = before ++ call :: rest → IsControlFrame call →
    ∀ sequence ∈ decoder.marketSequences before, sequence ≤ frameSequence call.data

theorem marketSequences_skip {call : Call}
    (market : decoder.decodesMarket call = false) (calls : List Call) :
    decoder.marketSequences (call :: calls) = (decoder.step call).marketSequences calls := by
  rw [marketSequences, market, if_neg Bool.false_ne_true]

theorem increasing_after {earlier : List UInt64} (increasing : earlier.Pairwise (· < ·))
    (reached : ∀ sequence ∈ earlier, sequence ≤ decoder.lastSequence) {calls : List Call}
    (steady : ∀ before call rest, calls = before ++ call :: rest → IsControlFrame call →
      ∀ sequence ∈ earlier ++ decoder.marketSequences before, sequence ≤ frameSequence call.data) :
    (earlier ++ decoder.marketSequences calls).Pairwise (· < ·) := by
  induction calls generalizing decoder earlier with
  | nil => simpa [marketSequences] using increasing
  | cons call calls ih =>
    have later : ∀ before next rest, calls = before ++ next :: rest → IsControlFrame next →
        ∀ sequence ∈ earlier ++ decoder.marketSequences (call :: before), sequence ≤
          frameSequence next.data := by
      intro before next rest split control
      exact steady (call :: before) next rest (by rw [split]; rfl) control
    rcases step_cases decoder call with ⟨market, ahead, moved⟩ |
      ⟨market, control, moved⟩ | ⟨market, moved⟩
    · have front : ∀ before, earlier ++ decoder.marketSequences (call :: before) =
          (earlier ++ [frameSequence call.data]) ++ (decoder.step call).marketSequences before := by
        intro before
        rw [marketSequences, if_pos market, List.append_assoc]
        rfl
      rw [front]
      apply ih
      · refine List.pairwise_append.mpr ⟨increasing, List.pairwise_singleton _ _, ?_⟩
        intro sequence listed other same
        rw [List.mem_singleton.mp same]
        exact UInt64.lt_of_le_of_lt (reached sequence listed) ahead
      · intro sequence listed
        rw [moved]
        rcases List.mem_append.mp listed with old | new
        · exact UInt64.le_of_lt (UInt64.lt_of_le_of_lt (reached sequence old) ahead)
        · rw [List.mem_singleton.mp new]
          exact UInt64.le_refl _
      · intro before next rest split isControl
        rw [← front]
        exact later before next rest split isControl
    · rw [marketSequences_skip market]
      refine ih increasing ?_ fun before next rest split isControl => ?_
      · intro sequence listed
        rw [moved]
        exact steady [] call calls rfl control sequence (List.mem_append_left _ listed)
      · rw [← marketSequences_skip market]
        exact later before next rest split isControl
    · rw [marketSequences_skip market]
      refine ih increasing ?_ fun before next rest split isControl => ?_
      · intro sequence listed
        exact UInt64.le_trans (reached sequence listed) moved
      · rw [← marketSequences_skip market]
        exact later before next rest split isControl

/-- In every run without such a control frame the sequence numbers of the decoded market frames
increase. -/
theorem market_sequences_increase {decoder : Decoder} {calls : List Call}
    (steady : decoder.Steady calls) :
    (decoder.marketSequences calls).Pairwise (· < ·) := by
  have whole := @increasing_after decoder [] List.Pairwise.nil (by simp) calls
  rw [List.nil_append] at whole
  exact whole steady

def frameBytes (type : MessageType) (sequence timestamp : UInt64) (payload : Bytes) : Bytes :=
  (sentHeader type 0 1 sequence timestamp payload).layout.bytes ++ payload

section Sent

variable {type : MessageType} {sequence timestamp : UInt64} {payload : Bytes}

theorem readHeader_frameBytes : Frame.readHeader (frameBytes type sequence timestamp payload) =
    sentHeader type 0 1 sequence timestamp payload := Frame.readHeader_layout _ _

theorem payloadOf_frameBytes : payloadOf (frameBytes type sequence timestamp payload) = payload :=
  List.drop_left' (FrameHeader.length_layout _)

theorem intact_frameBytes (short : payload.length ≤ Limits.maxPayloadLength) :
    Intact (frameBytes type sequence timestamp payload) := by
  have size : (sentHeader type 0 1 sequence timestamp payload).payloadLength.toNat =
      payload.length :=
    toNat_payloadLength short
  have length : (frameBytes type sequence timestamp payload).length =
      FrameHeader.size + payload.length := by
    rw [frameBytes, List.length_append, FrameHeader.length_layout]
  have valid := @validate_sent type 0 1 sequence timestamp payload short []
    (FrameHeader.size + payload.length) (by omega)
  rw [List.append_nil] at valid
  unfold Intact consumedBy
  rw [readHeader_frameBytes, payloadOf_frameBytes, length, size]
  exact ⟨by omega, by omega, valid⟩

end Sent

theorem readFrom_be64 (exchangeTsNs : UInt64) :
    HeartbeatPayload.readFrom (be64 exchangeTsNs) = ⟨exchangeTsNs⟩ := by
  have whole := HeartbeatPayload.readFrom_layout ⟨exchangeTsNs⟩ []
  simpa [HeartbeatPayload.layout, Layout.bytes] using whole

theorem decodeFrame_beat {sequence timestamp exchangeTsNs : UInt64}
    (later : decoder.lastSequence < sequence) :
    decoder.decodeFrame
      (frameBytes .heartbeat sequence timestamp (be64 exchangeTsNs)) slot receiveTsNs =
      ((decoder.advanced (frameBytes .heartbeat sequence timestamp (be64 exchangeTsNs))).counted,
        ⟨exchangeTsNs, if receiveTsNs > 0 then receiveTsNs else timestamp, sequence, 0, .heartbeat,
          .bid, 0, 0, 0, 0, 0, 0⟩,
        .ok (consumedBy (frameBytes .heartbeat sequence timestamp (be64 exchangeTsNs)))) := by
  have header := @readHeader_frameBytes .heartbeat sequence timestamp (be64 exchangeTsNs)
  have intact := @intact_frameBytes .heartbeat sequence timestamp (be64 exchangeTsNs)
    (by rw [length_be64]; decide)
  have number : frameSequence (frameBytes .heartbeat sequence timestamp (be64 exchangeTsNs)) =
      sequence := by
    rw [frameSequence, header]
    rfl
  have kind : messageType (frameBytes .heartbeat sequence timestamp (be64 exchangeTsNs)) = 5 := by
    rw [messageType, header]
    rfl
  have time : receiveTime
      (frameBytes .heartbeat sequence timestamp (be64 exchangeTsNs)) receiveTsNs =
      if receiveTsNs > 0 then receiveTsNs else timestamp := by
    rw [receiveTime, header]
    rfl
  have size : (Frame.readHeader
      (frameBytes .heartbeat sequence timestamp (be64 exchangeTsNs))).payloadLength = 8 := by
    rw [header]
    rfl
  have filled : decodePayload 5 (be64 exchangeTsNs) 8
      (stamped (frameBytes .heartbeat sequence timestamp (be64 exchangeTsNs)) slot receiveTsNs) =
      (⟨exchangeTsNs, if receiveTsNs > 0 then receiveTsNs else timestamp, sequence, 0, .heartbeat,
        .bid, 0, 0, 0, 0, 0, 0⟩,
        .ok ()) := by
    unfold decodePayload
    rw [if_neg (by decide), if_neg (by decide), if_neg (by decide),
      if_neg (by decide), if_pos (by decide)]
    unfold decodeHeartbeat
    rw [if_neg (by decide), readFrom_be64, stamped, number, time]
  rw [decodeFrame_intact intact (.inl (by rw [number]; exact later)), kind, if_neg (by decide),
    payloadOf_frameBytes, size, filled]

def emptyEvent : CanonicalEvent := ⟨0, 0, 0, 0, .quote, .bid, 0, 0, 0, 0, 0, 0⟩

def beatCall (sequence : UInt64) : Call :=
  ⟨frameBytes .heartbeat sequence 7 (be64 7), emptyEvent, 0⟩

def metadataCall (sequence : UInt64) : Call :=
  ⟨frameBytes .streamMetadata sequence 7 [], emptyEvent, 0⟩

theorem marketSequences_beat {sequence : UInt64} (later : decoder.lastSequence < sequence) :
    ∃ next : Decoder, next.lastSequence = sequence ∧ ∀ rest,
      decoder.marketSequences (beatCall sequence :: rest) = sequence ::
        next.marketSequences rest := by
  have header := @readHeader_frameBytes .heartbeat sequence 7 (be64 7)
  have number : frameSequence (beatCall sequence).data = sequence :=
    congrArg FrameHeader.sequence header
  have kind : messageType (beatCall sequence).data = 5 := congrArg FrameHeader.messageType header
  have taken := @decodeFrame_beat decoder emptyEvent 0 sequence 7 7 later
  refine ⟨decoder.step (beatCall sequence), ?_, fun rest => ?_⟩
  · unfold step
    exact (congrArg (fun outcome => outcome.1.lastSequence) taken).trans number
  · have market : decoder.decodesMarket (beatCall sequence) = true := by
      unfold decodesMarket
      rw [show decoder.decodeFrame (beatCall sequence).data (beatCall sequence).slot
        (beatCall sequence).receiveTsNs = _
        from taken, kind]
      rfl
    rw [marketSequences, if_pos market, number]

theorem marketSequences_metadata (decoder : Decoder) (sequence : UInt64) :
    ∃ next : Decoder, next.lastSequence = sequence ∧ ∀ rest,
      decoder.marketSequences (metadataCall sequence :: rest) = next.marketSequences rest := by
  have header := @readHeader_frameBytes .streamMetadata sequence 7 []
  have intact : Intact (metadataCall sequence).data := intact_frameBytes (by decide)
  have number : frameSequence (metadataCall sequence).data = sequence :=
    congrArg FrameHeader.sequence header
  have kind : messageType (metadataCall sequence).data =
      0 := congrArg FrameHeader.messageType header
  have control : isControl (messageType (metadataCall sequence).data) = true := by
    rw [kind]
    rfl
  have taken := @decodeFrame_intact decoder _ emptyEvent 0 intact (.inr control)
  rw [if_pos control] at taken
  refine ⟨decoder.step (metadataCall sequence), ?_, fun rest => ?_⟩
  · unfold step
    exact (congrArg (fun outcome => outcome.1.lastSequence) taken).trans number
  · apply marketSequences_skip
    unfold decodesMarket
    rw [show decoder.decodeFrame (metadataCall sequence).data (metadataCall sequence).slot
      (metadataCall sequence).receiveTsNs = _ from taken, control]
    rfl

theorem market_sequences_increase_beats :
    Steady {} [beatCall 1, metadataCall 3, beatCall 4] ∧
      (marketSequences {} [beatCall 1, metadataCall 3, beatCall 4]).Pairwise (· < ·) := by
  have steady : Steady {} [beatCall 1, metadataCall 3, beatCall 4] := by
    obtain ⟨first, reached, beats⟩ := @marketSequences_beat {} 1 (by decide)
    obtain ⟨second, -, skips⟩ := marketSequences_metadata first 3
    intro before call rest split _ sequence listed
    rcases before with _ | ⟨one, before⟩
    · cases listed
    rw [List.cons_append, List.cons.injEq] at split
    obtain ⟨rfl, split⟩ := split
    rcases before with _ | ⟨two, before⟩
    · rw [List.nil_append, List.cons.injEq] at split
      rw [beats, marketSequences, List.mem_singleton] at listed
      have number : frameSequence (metadataCall 3).data = 3 :=
        congrArg FrameHeader.sequence readHeader_frameBytes
      rw [← split.1, number, listed]
      decide
    rw [List.cons_append, List.cons.injEq] at split
    obtain ⟨rfl, split⟩ := split
    rcases before with _ | ⟨three, before⟩
    · rw [List.nil_append, List.cons.injEq] at split
      rw [beats, skips, marketSequences, List.mem_singleton] at listed
      have number : frameSequence (beatCall 4).data =
          4 := congrArg FrameHeader.sequence readHeader_frameBytes
      rw [← split.1, number, listed]
      decide
    · rw [List.cons_append, List.cons.injEq] at split
      exact absurd split.2 (by simp)
  exact ⟨steady, market_sequences_increase steady⟩

/-- After a metadata frame with sequence number zero a heartbeat is decoded a second time. -/
theorem market_sequence_repeats :
    marketSequences {} [beatCall 5, metadataCall 0, beatCall 5] = [5, 5] ∧
      ¬ (marketSequences {} [beatCall 5, metadataCall 0, beatCall 5]).Pairwise (· < ·) := by
  obtain ⟨first, -, beats⟩ := @marketSequences_beat {} 5 (by decide)
  obtain ⟨second, lowered, skips⟩ := marketSequences_metadata first 0
  obtain ⟨third, -, again⟩ := @marketSequences_beat second 5 (by rw [lowered]; decide)
  have both : marketSequences {} [beatCall 5, metadataCall 0, beatCall 5] = [5, 5] := by
    rw [beats, skips, again, marketSequences]
  rw [both]
  exact ⟨rfl, by decide⟩

def beatTime (data : Bytes) : UInt64 := (HeartbeatPayload.readFrom (payloadOf data)).exchangeTsNs

theorem decodePayload_validated {kind : UInt8}
    (other : kind ≠ MessageType.heartbeat.value) {payload : Bytes}
    {length : UInt32} (filled : decodePayload kind payload length slot = (event, .ok ())) :
    Event.validate event = .ok () := by
  unfold decodePayload at filled
  rw [if_neg other] at filled
  have tail : ∀ {small : Prop} [Decidable small] {message : String} {built : CanonicalEvent},
      (if small then (slot, failWith .invalidPayload message) else (built, Event.validate built)) =
        (event, .ok ()) →
      Event.validate event = .ok () := by
    intro small _ message built filled
    by_cases short : small
    · rw [if_pos short] at filled
      cases filled
    · rw [if_neg short] at filled
      obtain ⟨rfl, accepted⟩ := Prod.mk.inj filled
      exact accepted
  split at filled
  · exact tail filled
  split at filled
  · exact tail filled
  split at filled
  · exact tail filled
  split at filled
  · exact tail filled
  · cases filled

theorem decodePayload_beat {payload : Bytes} {length : UInt32}
    (filled : decodePayload MessageType.heartbeat.value payload length slot = (event, .ok ())) :
    event = ⟨(HeartbeatPayload.readFrom payload).exchangeTsNs, slot.receiveTsNs, slot.sequence,
      0, .heartbeat, .bid, 0, 0,
      0, 0, 0, 0⟩ := by
  unfold decodePayload at filled
  rw [if_neg (by decide), if_neg (by decide), if_neg (by decide),
    if_neg (by decide), if_pos rfl] at filled
  unfold decodeHeartbeat at filled
  split at filled
  · cases filled
  · exact (Prod.mk.inj filled).1.symm

theorem validate_beat_iff (exchangeTsNs receiveTs sequence : UInt64) :
    Event.validate ⟨exchangeTsNs, receiveTs, sequence, 0, .heartbeat, .bid, 0,
      0, 0, 0, 0, 0⟩ = .ok () ↔
      exchangeTsNs ≤ Limits.maxTimestamp ∧ receiveTs ≤ Limits.maxTimestamp := by
  constructor
  · intro accepted
    have valid := Event.valid_of_validate accepted
    exact ⟨valid.exchangeTs, valid.receiveTs⟩
  · rintro ⟨exchange, receive⟩
    apply Event.validate_of_valid
    exact {
      eventType := UInt8.le_refl _
      side := .inl rfl
      exchangeTs := exchange
      receiveTs := receive
      instrument := show (0 : UInt32) < Limits.maxInstruments by decide
      priceLow := show -Limits.maxPrice ≤ 0 by decide
      priceHigh := show 0 ≤ Limits.maxPrice by decide
      quantity := show 0 ≤ Limits.maxQuantity by decide
      venue := show 0 < Limits.maxVenues by decide
      source := show 0 < Limits.maxSources by decide }

theorem addEvent_accepts_iff {writer : SegmentWriter} (room : writer.isFull = false) :
    (∃ grown, writer.addEvent event = .ok grown) ↔ Event.validate event = .ok () := by
  unfold SegmentWriter.addEvent
  rw [room]
  cases checked : Event.validate event with
  | ok _ => exact ⟨fun _ => rfl, fun _ => ⟨_, rfl⟩⟩
  | error stop =>
    constructor
    · rintro ⟨_, added⟩
      cases added
    · intro accepted
      cases accepted

/-- A decoded market frame has an event that can be stored, exactly when it is not a
heartbeat with a time out of range. -/
theorem accepted_storable_iff {consumed : Nat} (market : isControl (messageType data) = false)
    (decoded : decoder.decodeFrame data slot receiveTsNs = (after, event, .ok consumed)) :
    (Event.validate event = .ok () ∧
      ∀ writer : SegmentWriter, writer.isFull = false →
        ∃ grown, writer.addEvent event = .ok grown) ↔
      (messageType data = MessageType.heartbeat.value →
        beatTime data ≤ Limits.maxTimestamp ∧ receiveTime data receiveTsNs ≤
          Limits.maxTimestamp) := by
  have filled := decoded_market market decoded
  have accepts : (Event.validate event = .ok () ∧
      ∀ writer : SegmentWriter, writer.isFull = false →
        ∃ grown, writer.addEvent event = .ok grown) ↔
      Event.validate event = .ok () :=
    ⟨And.left, fun accepted =>
      ⟨accepted, fun writer room => (addEvent_accepts_iff room).mpr accepted⟩⟩
  rw [accepts]
  by_cases beat : messageType data = MessageType.heartbeat.value
  · rw [beat] at filled
    rw [decodePayload_beat filled, validate_beat_iff]
    exact ⟨fun bounds _ => bounds, fun bounds => bounds beat⟩
  · exact ⟨fun _ isBeat => absurd isBeat beat, fun _ => decodePayload_validated beat filled⟩

theorem accepted_storable_beat :
    ∃ after event consumed, decodeFrame {} (frameBytes .heartbeat 1 7 (be64 7)) emptyEvent 9 =
      (after, event, .ok consumed) ∧
      Event.validate event = .ok () := by
  have decoded := @decodeFrame_beat {} emptyEvent 9 1 7 7 (by decide)
  have kind : messageType (frameBytes .heartbeat 1 7 (be64 7)) = 5 :=
    congrArg FrameHeader.messageType readHeader_frameBytes
  have time : beatTime (frameBytes .heartbeat 1 7 (be64 7)) = 7 := by
    rw [beatTime, payloadOf_frameBytes, readFrom_be64]
  have storable := (accepted_storable_iff (by rw [kind]; rfl) decoded).mpr fun _ =>
    ⟨by rw [time]; decide, show (9 : UInt64) ≤ Limits.maxTimestamp by decide⟩
  exact ⟨_, _, _, decoded, storable.1⟩

/-- A heartbeat of the last nanosecond there is, is decoded, and no writer takes it. -/
theorem accepted_unstorable :
    ∃ after event consumed,
      decodeFrame {} (frameBytes .heartbeat 1 7 (be64 0xFFFFFFFFFFFFFFFF)) emptyEvent 0 =
        (after, event, .ok consumed) ∧
      isControl (messageType (frameBytes .heartbeat 1 7 (be64 0xFFFFFFFFFFFFFFFF))) = false ∧
      Event.validate event ≠ .ok () ∧ ∀ writer : SegmentWriter, ∀ grown,
        writer.addEvent event ≠ .ok grown := by
  have decoded := @decodeFrame_beat {} emptyEvent 0 1 7 0xFFFFFFFFFFFFFFFF (by decide)
  have kind : messageType (frameBytes .heartbeat 1 7 (be64 0xFFFFFFFFFFFFFFFF)) = 5 :=
    congrArg FrameHeader.messageType readHeader_frameBytes
  have late : Event.validate ⟨0xFFFFFFFFFFFFFFFF, if (0 : UInt64) > 0 then
      0 else 7, 1, 0, .heartbeat, .bid, 0, 0, 0, 0, 0, 0⟩ ≠
      .ok () := by
    rw [ne_eq, validate_beat_iff]
    decide
  refine ⟨_, _, _, decoded, by rw [kind]; rfl, late, fun writer grown added => ?_⟩
  by_cases full : writer.isFull = true
  · unfold SegmentWriter.addEvent at added
    rw [full] at added
    cases added
  · exact late ((addEvent_accepts_iff (by simpa using full)).mp ⟨grown, added⟩)

end Decoder

end VectorTick.Vtp1
