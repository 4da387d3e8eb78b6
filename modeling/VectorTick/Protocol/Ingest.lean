import Mathlib.Data.List.GetD
import VectorTick.Protocol.Acceptance

/-! The ingest loop: the frames of one packet payload are decoded one after another, and the
events of the market frames are added to a segment.

The loop tells a market frame by the type in its event variable. A control frame does not set the
type, and the variable is not initialised. -/

set_option autoImplicit false

namespace VectorTick.Vtp1

open Foundation

/-- The test by which an event is added. -/
def isMarketEvent (event : CanonicalEvent) : Bool :=
  event.eventType = .quote || event.eventType = .trade || event.eventType = .bookDelta ||
    event.eventType = .status || event.eventType = .heartbeat

/-- The loop over one payload. `slots` is what the storage of `event` holds as an
iteration begins. The calls of `add_event` are listed with the number of their iteration;
a call that fails ends the program, a frame that is not decoded ends the loop. `fuel`
bounds the number of iterations. -/
def ingestFrames (receiveTsNs : UInt64) (slots : Nat → CanonicalEvent) (data : Bytes) :
    Nat → Nat → Nat → Decoder → SegmentWriter →
      List (Nat × CanonicalEvent) × Except Stop (Decoder × SegmentWriter)
  | 0, _, _, decoder, writer => ([], .ok (decoder, writer))
  | fuel + 1, iteration, offset, decoder, writer =>
    if offset < data.length then
      match decoder.decodeFrame (data.drop offset) (slots iteration) receiveTsNs with
      | (decoder, _, .error _) => ([], .ok (decoder, writer))
      | (decoder, event, .ok consumed) =>
        if isMarketEvent event then
          match writer.addEvent event with
          | .error stop => ([(iteration, event)], .error stop)
          | .ok writer =>
            let (calls, outcome) :=
              ingestFrames receiveTsNs slots data fuel (iteration + 1)
                (offset + consumed) decoder writer
            ((iteration, event) :: calls, outcome)
        else ingestFrames receiveTsNs slots data fuel (iteration + 1)
          (offset + consumed) decoder writer
    else ([], .ok (decoder, writer))

/-- What is done with the payload of a packet. Every iteration takes a byte at least. -/
def ingestPayload (receiveTsNs : UInt64) (slots : Nat → CanonicalEvent)
    (data : Bytes) (decoder : Decoder)
    (writer : SegmentWriter) :
    List (Nat × CanonicalEvent) × Except Stop (Decoder × SegmentWriter) :=
  if FrameHeader.size ≤ data.length then
    ingestFrames receiveTsNs slots data data.length 0 0 decoder writer
  else ([], .ok (decoder, writer))

section InFront

variable {bytes : Bytes} (rest : Bytes)

theorem QuotePayload.readFrom_append (whole : QuotePayload.size ≤ bytes.length) :
    QuotePayload.readFrom (bytes ++ rest) = QuotePayload.readFrom bytes := by
  unfold QuotePayload.size at whole
  simp (disch := omega) only [QuotePayload.readFrom, slice_append_left, List.getD_append]

theorem TradePayload.readFrom_append (whole : TradePayload.size ≤ bytes.length) :
    TradePayload.readFrom (bytes ++ rest) = TradePayload.readFrom bytes := by
  unfold TradePayload.size at whole
  simp (disch := omega) only [TradePayload.readFrom, slice_append_left, List.getD_append]

theorem BookDeltaPayload.readFrom_append (whole : BookDeltaPayload.size ≤ bytes.length) :
    BookDeltaPayload.readFrom (bytes ++ rest) = BookDeltaPayload.readFrom bytes := by
  unfold BookDeltaPayload.size at whole
  simp (disch := omega) only [BookDeltaPayload.readFrom, slice_append_left, List.getD_append]

theorem StatusPayload.readFrom_append (whole : StatusPayload.size ≤ bytes.length) :
    StatusPayload.readFrom (bytes ++ rest) = StatusPayload.readFrom bytes := by
  unfold StatusPayload.size at whole
  simp (disch := omega) only [StatusPayload.readFrom, slice_append_left, List.getD_append]

theorem HeartbeatPayload.readFrom_append (whole : HeartbeatPayload.size ≤ bytes.length) :
    HeartbeatPayload.readFrom (bytes ++ rest) = HeartbeatPayload.readFrom bytes := by
  unfold HeartbeatPayload.size at whole
  simp (disch := omega) only [HeartbeatPayload.readFrom, slice_append_left]

theorem Frame.readHeader_append (whole : FrameHeader.size ≤ bytes.length) :
    Frame.readHeader (bytes ++ rest) = Frame.readHeader bytes := by
  unfold FrameHeader.size at whole
  simp (disch := omega) only [Frame.readHeader, slice_append_left, List.getD_append]

theorem Frame.validate_append {header : FrameHeader} {available more : Nat}
    (there : FrameHeader.size + header.payloadLength.toNat ≤ available) (further : available ≤ more)
    (whole : header.payloadLength.toNat = bytes.length) :
    Frame.validate header (bytes ++ rest) more = Frame.validate header bytes available := by
  unfold Frame.validate
  rw [computeCrc_append header whole, if_neg (show ¬ more < _ by omega),
    if_neg (show ¬ available < _ by omega)]

namespace Decoder

variable {length : UInt32} (slot : CanonicalEvent)

theorem decodePayload_append (kind : UInt8) (inside : length.toNat ≤ bytes.length) :
    decodePayload kind (bytes ++ rest) length slot = decodePayload kind bytes length slot := by
  have quote : decodeQuote (bytes ++ rest) length slot = decodeQuote bytes length slot := by
    unfold decodeQuote
    by_cases short : length.toNat < QuotePayload.size
    · rw [if_pos short, if_pos short]
    · rw [if_neg short, if_neg short, QuotePayload.readFrom_append rest (by omega)]
  have trade : decodeTrade (bytes ++ rest) length slot = decodeTrade bytes length slot := by
    unfold decodeTrade
    by_cases short : length.toNat < TradePayload.size
    · rw [if_pos short, if_pos short]
    · rw [if_neg short, if_neg short, TradePayload.readFrom_append rest (by omega)]
  have bookDelta : decodeBookDelta (bytes ++ rest) length slot =
      decodeBookDelta bytes length slot := by
    unfold decodeBookDelta
    by_cases short : length.toNat < BookDeltaPayload.size
    · rw [if_pos short, if_pos short]
    · rw [if_neg short, if_neg short, BookDeltaPayload.readFrom_append rest (by omega)]
  have status : decodeStatus (bytes ++ rest) length slot = decodeStatus bytes length slot := by
    unfold decodeStatus
    by_cases short : length.toNat < StatusPayload.size
    · rw [if_pos short, if_pos short]
    · rw [if_neg short, if_neg short, StatusPayload.readFrom_append rest (by omega)]
  have heartbeat : decodeHeartbeat (bytes ++ rest) length slot =
      decodeHeartbeat bytes length slot := by
    unfold decodeHeartbeat
    by_cases short : length.toNat < HeartbeatPayload.size
    · rw [if_pos short, if_pos short]
    · rw [if_neg short, if_neg short, HeartbeatPayload.readFrom_append rest (by omega)]
  unfold decodePayload
  rw [quote, trade, bookDelta, status, heartbeat]

end Decoder

end InFront

namespace Decoder

variable {decoder : Decoder} {receiveTsNs : UInt64} {frame : Bytes} {slot : CanonicalEvent}

/-- The event of a market frame in a packet received at the given time. -/
def decodedEvent (receiveTsNs : UInt64) (frame : Bytes) : CanonicalEvent :=
  (decodePayload (messageType frame) (payloadOf frame) (Frame.readHeader frame).payloadLength
    (stamped frame emptyEvent receiveTsNs)).1

/-- The bytes of one frame and no more, with a payload that is accepted
if there is an event in it. -/
structure ValidFrame (receiveTsNs : UInt64) (frame : Bytes) : Prop where
  intact : Intact frame
  whole : consumedBy frame = frame.length
  accepted : isControl (messageType frame) = false →
    (decodePayload (messageType frame) (payloadOf frame) (Frame.readHeader frame).payloadLength
      (stamped frame emptyEvent receiveTsNs)).2 = .ok ()

/-- An accepted payload sets all of the event but the time it is received at and the sequence
number, and its type is one of the five. -/
theorem decodePayload_sets {kind : UInt8} {payload : Bytes}
    {length : UInt32} {slot : CanonicalEvent}
    (accepted : (decodePayload kind payload length slot).2 = .ok ()) :
    isMarketEvent (decodePayload kind payload length slot).1 = true ∧
      ∀ other : CanonicalEvent, other.receiveTsNs = slot.receiveTsNs →
        other.sequence = slot.sequence →
        decodePayload kind payload length other = decodePayload kind payload length slot := by
  unfold decodePayload at accepted ⊢
  by_cases quote : kind = MessageType.quote.value
  · simp only [if_pos quote] at accepted ⊢
    unfold decodeQuote at accepted ⊢
    by_cases short : length.toNat < QuotePayload.size
    · rw [if_pos short] at accepted
      cases accepted
    · simp only [if_neg short]
      refine ⟨?_, fun other time number => by rw [time, number]⟩
      by_cases ask : Side.mk (QuotePayload.readFrom payload).side = .ask
      · rw [if_pos ask]
        rfl
      · rw [if_neg ask]
        rfl
  simp only [if_neg quote] at accepted ⊢
  by_cases trade : kind = MessageType.trade.value
  · simp only [if_pos trade] at accepted ⊢
    unfold decodeTrade at accepted ⊢
    by_cases short : length.toNat < TradePayload.size
    · rw [if_pos short] at accepted
      cases accepted
    · simp only [if_neg short]
      exact ⟨rfl, fun other time number => by rw [time, number]⟩
  simp only [if_neg trade] at accepted ⊢
  by_cases bookDelta : kind = MessageType.bookDelta.value
  · simp only [if_pos bookDelta] at accepted ⊢
    unfold decodeBookDelta at accepted ⊢
    by_cases short : length.toNat < BookDeltaPayload.size
    · rw [if_pos short] at accepted
      cases accepted
    · simp only [if_neg short]
      exact ⟨rfl, fun other time number => by rw [time, number]⟩
  simp only [if_neg bookDelta] at accepted ⊢
  by_cases status : kind = MessageType.status.value
  · simp only [if_pos status] at accepted ⊢
    unfold decodeStatus at accepted ⊢
    by_cases short : length.toNat < StatusPayload.size
    · rw [if_pos short] at accepted
      cases accepted
    · simp only [if_neg short]
      exact ⟨rfl, fun other time number => by rw [time, number]⟩
  simp only [if_neg status] at accepted ⊢
  by_cases heartbeat : kind = MessageType.heartbeat.value
  · simp only [if_pos heartbeat] at accepted ⊢
    unfold decodeHeartbeat at accepted ⊢
    by_cases short : length.toNat < HeartbeatPayload.size
    · rw [if_pos short] at accepted
      cases accepted
    · simp only [if_neg short]
      exact ⟨rfl, fun other time number => by rw [time, number]⟩
  · rw [if_neg heartbeat] at accepted
    cases accepted

namespace ValidFrame

variable (valid : ValidFrame receiveTsNs frame) (rest : Bytes)
include valid

theorem readHeader_append : Frame.readHeader (frame ++ rest) = Frame.readHeader frame :=
  Frame.readHeader_append rest valid.intact.1

theorem messageType_append : messageType (frame ++ rest) = messageType frame :=
  congrArg FrameHeader.messageType (valid.readHeader_append rest)

theorem frameSequence_append : frameSequence (frame ++ rest) = frameSequence frame :=
  congrArg FrameHeader.sequence (valid.readHeader_append rest)

theorem consumedBy_append : consumedBy (frame ++ rest) = frame.length := by
  rw [consumedBy, valid.readHeader_append rest, ← valid.whole, consumedBy]

theorem payloadOf_append : payloadOf (frame ++ rest) = payloadOf frame ++ rest :=
  List.drop_append_of_le_length valid.intact.1

theorem length_payloadOf : (Frame.readHeader frame).payloadLength.toNat =
    (payloadOf frame).length := by
  have whole := valid.whole
  rw [consumedBy] at whole
  rw [payloadOf, List.length_drop]
  omega

theorem intact_append : Intact (frame ++ rest) := by
  have length : (frame ++ rest).length = frame.length + rest.length := List.length_append
  have checked := valid.intact.2.2
  refine ⟨?_, ?_, ?_⟩
  · have header := valid.intact.1
    omega
  · rw [valid.consumedBy_append, length]
    omega
  · rw [valid.readHeader_append, valid.payloadOf_append,
      Frame.validate_append rest valid.intact.2.1 (by omega) valid.length_payloadOf]
    exact checked

theorem decodeFrame_append (order : isControl (messageType frame) = true ∨
    decoder.lastSequence < frameSequence frame) :
    decoder.decodeFrame (frame ++ rest) slot receiveTsNs =
      ((decoder.advanced frame).counted,
        if isControl (messageType frame) then stamped frame slot receiveTsNs
          else decodedEvent receiveTsNs frame,
        .ok frame.length) := by
  have stamp : ∀ event, stamped (frame ++ rest) event receiveTsNs =
      stamped frame event receiveTsNs := by
    intro event
    rw [stamped, stamped, receiveTime, receiveTime, valid.readHeader_append,
      valid.frameSequence_append]
  have moved : decoder.advanced (frame ++ rest) = decoder.advanced frame := by
    rw [advanced, advanced, valid.readHeader_append, valid.frameSequence_append]
  have next : decoder.lastSequence < frameSequence (frame ++ rest) ∨
      isControl (messageType (frame ++ rest)) = true := by
    rw [valid.frameSequence_append, valid.messageType_append]
    exact order.symm
  rw [decodeFrame_intact (valid.intact_append rest) next, valid.messageType_append,
    valid.consumedBy_append, stamp, moved]
  by_cases control : isControl (messageType frame) = true
  · rw [if_pos control, if_pos control]
  · rw [if_neg control, if_neg control, valid.payloadOf_append, valid.readHeader_append,
      decodePayload_append rest _ _ valid.length_payloadOf.le]
    have accepted := valid.accepted (Bool.eq_false_of_not_eq_true control)
    rw [(decodePayload_sets accepted).2 (stamped frame slot receiveTsNs) rfl rfl]
    unfold decodedEvent
    generalize decodePayload (messageType frame) (payloadOf frame)
      (Frame.readHeader frame).payloadLength
      (stamped frame emptyEvent receiveTsNs) = filled at accepted ⊢
    obtain ⟨event, outcome⟩ := filled
    cases accepted
    rfl

theorem decodeFrame_behind
    (behind : ¬ (isControl (messageType frame) = true ∨
      decoder.lastSequence < frameSequence frame)) :
    ∃ stop, (decoder.decodeFrame (frame ++ rest) slot receiveTsNs).2.2 = .error stop := by
  apply (decodeFrame_refused _).2
  rintro ⟨_, order⟩
  rw [valid.frameSequence_append, valid.messageType_append] at order
  exact behind order.symm

theorem isMarketEvent_decoded (market : isControl (messageType frame) = false) :
    isMarketEvent (decodedEvent receiveTsNs frame) = true :=
  (decodePayload_sets (valid.accepted market)).1

end ValidFrame

/-- The calls there should be: one for each market frame, with its event. -/
def marketCalls (receiveTsNs : UInt64) : Nat → List Bytes → List (Nat × CanonicalEvent)
  | _, [] => []
  | iteration, frame :: rest =>
    if isControl (messageType frame) then marketCalls receiveTsNs (iteration + 1) rest
    else (iteration, decodedEvent receiveTsNs frame) :: marketCalls receiveTsNs (iteration + 1) rest

/-- The first frame, unless a control frame, comes after what was decoded before the packet. -/
def Follows (decoder : Decoder) : List Bytes → Prop
  | [] => True
  | frame :: _ => isControl (messageType frame) = true ∨ decoder.lastSequence < frameSequence frame

/-- No control frame finds the type of a market event in the variable, and the writer takes the
events, but for the last one perhaps. -/
def Ingests (receiveTsNs : UInt64) (slots : Nat → CanonicalEvent) :
    Nat → SegmentWriter → List Bytes → Prop
  | _, _, [] => True
  | iteration, writer, frame :: rest =>
    if isControl (messageType frame) then
      isMarketEvent (slots iteration) = false ∧
        Ingests receiveTsNs slots (iteration + 1) writer rest
    else match writer.addEvent (decodedEvent receiveTsNs frame) with
      | .ok writer => Ingests receiveTsNs slots (iteration + 1) writer rest
      | .error _ => ∀ later ∈ rest, isControl (messageType later) = true

section Run

variable {slots : Nat → CanonicalEvent} {writer : SegmentWriter}
  {frames rest : List Bytes} {iteration : Nat}

theorem marketCalls_from : ∀ {iteration : Nat}, ∀ call ∈ marketCalls receiveTsNs iteration frames,
    iteration ≤ call.1 := by
  induction frames with
  | nil =>
    intro iteration call listed
    cases listed
  | cons frame rest ih =>
    intro iteration call listed
    rw [marketCalls] at listed
    by_cases control : isControl (messageType frame) = true
    · rw [if_pos control] at listed
      exact Nat.le_of_succ_le (ih call listed)
    · rw [if_neg control, List.mem_cons] at listed
      rcases listed with rfl | listed
      · exact Nat.le_refl _
      · exact Nat.le_of_succ_le (ih call listed)

theorem marketCalls_eq_nil_iff : ∀ {iteration : Nat},
    marketCalls receiveTsNs iteration frames = [] ↔
    ∀ frame ∈ frames, isControl (messageType frame) = true := by
  induction frames with
  | nil => simp [marketCalls]
  | cons frame rest ih =>
    intro iteration
    rw [marketCalls, List.forall_mem_cons]
    by_cases control : isControl (messageType frame) = true
    · rw [if_pos control, ih]
      exact ⟨fun others => ⟨control, others⟩, And.right⟩
    · rw [if_neg control]
      exact ⟨fun empty => (nomatch empty), fun all => absurd all.1 control⟩

theorem ingestFrames_iff {data : Bytes} {fuel offset : Nat}
    (ahead : data.drop offset = frames.flatten)
    (enough : frames.flatten.length ≤ fuel) (valid : ∀ frame ∈ frames, ValidFrame receiveTsNs frame)
    (increasing : (frames.map frameSequence).Pairwise (· < ·)) (follows : decoder.Follows frames) :
    (ingestFrames receiveTsNs slots data fuel iteration offset decoder writer).1 =
        marketCalls receiveTsNs iteration frames ↔
          Ingests receiveTsNs slots iteration writer frames := by
  induction frames generalizing fuel offset iteration decoder writer with
  | nil =>
    have past : ¬ offset < data.length := by
      have none := List.drop_eq_nil_iff.mp ahead
      omega
    have calls : (ingestFrames receiveTsNs slots data fuel iteration offset decoder writer).1 =
        [] := by
      cases fuel with
      | zero => rfl
      | succ fuel => rw [ingestFrames, if_neg past]
    rw [calls]
    exact ⟨fun _ => trivial, fun _ => rfl⟩
  | cons frame rest ih =>
    obtain ⟨here, others⟩ := List.forall_mem_cons.mp valid
    rw [List.map_cons, List.pairwise_cons] at increasing
    obtain ⟨first, increasing⟩ := increasing
    rw [List.flatten_cons] at ahead enough
    have header := here.intact.1
    rw [FrameHeader.size] at header
    rw [List.length_append] at enough
    have inside : offset < data.length := by
      have length := congrArg List.length ahead
      rw [List.length_drop, List.length_append] at length
      omega
    have behind : data.drop (offset + frame.length) = rest.flatten := by
      rw [← List.drop_drop, ahead, List.drop_left]
    have next : (decoder.advanced frame).counted.Follows rest := by
      cases rest with
      | nil => trivial
      | cons later rest => exact .inr (first _ (List.mem_map_of_mem List.mem_cons_self))
    obtain ⟨fuel, rfl⟩ : ∃ less, fuel = less + 1 := ⟨fuel - 1, by omega⟩
    have later :=
      fun writer => @ih _ writer (iteration + 1) fuel _ behind (by omega) others increasing next
    rw [ingestFrames, if_pos inside, ahead,
      here.decodeFrame_append rest.flatten follows, marketCalls, Ingests]
    by_cases control : isControl (messageType frame) = true
    · simp only [if_pos control]
      by_cases leftover : isMarketEvent (slots iteration) = true
      · -- The leftover is added at this iteration, which none of the calls to come has.
        have market : isMarketEvent (stamped frame (slots iteration) receiveTsNs) = true := leftover
        rw [if_pos market, leftover]
        refine ⟨fun same => False.elim ?_, fun ingests => Bool.noConfusion ingests.1⟩
        have listed : (iteration, stamped frame (slots iteration) receiveTsNs) ∈
            marketCalls receiveTsNs (iteration + 1) rest := by
          rw [← same]
          cases writer.addEvent (stamped frame (slots iteration) receiveTsNs) with
          | ok _ => exact List.mem_cons_self
          | error _ => exact List.mem_cons_self
        exact Nat.not_succ_le_self _ (marketCalls_from _ listed)
      · have silent : ¬ isMarketEvent (stamped frame (slots iteration) receiveTsNs) = true :=
          leftover
        rw [if_neg silent, later writer]
        exact ⟨fun ingests => ⟨Bool.eq_false_of_not_eq_true leftover, ingests⟩, And.right⟩
    · simp only [if_neg control]
      rw [if_pos (here.isMarketEvent_decoded (Bool.eq_false_of_not_eq_true control))]
      cases added : writer.addEvent (decodedEvent receiveTsNs frame) with
      | ok grown =>
        dsimp only
        rw [List.cons.injEq, later grown]
        exact and_iff_right rfl
      | error stop =>
        dsimp only
        rw [List.cons.injEq, @eq_comm _ [], marketCalls_eq_nil_iff]
        exact and_iff_right rfl

end Run

/-- The calls are one for each market frame, with its event, exactly when the packet follows what
was decoded before, no control frame that is reached finds a market type left in the event
variable, and the writer refuses none but the last market event. -/
theorem market_rows_iff (slots : Nat → CanonicalEvent)
    (writer : SegmentWriter) {frames : List Bytes}
    (valid : ∀ frame ∈ frames, ValidFrame receiveTsNs frame)
    (increasing : (frames.map frameSequence).Pairwise (· < ·)) :
    (ingestPayload receiveTsNs slots frames.flatten decoder writer).1 =
      marketCalls receiveTsNs 0 frames ↔
      decoder.Follows frames ∧ Ingests receiveTsNs slots 0 writer frames := by
  unfold ingestPayload
  cases frames with
  | nil => exact ⟨fun _ => ⟨trivial, trivial⟩, fun _ => rfl⟩
  | cons frame rest =>
    have here := valid frame List.mem_cons_self
    have header := here.intact.1
    have enough : FrameHeader.size ≤ (frame :: rest).flatten.length := by
      rw [List.flatten_cons, List.length_append]
      omega
    rw [if_pos enough]
    by_cases follows : decoder.Follows (frame :: rest)
    · rw [ingestFrames_iff List.drop_zero (Nat.le_refl _) valid increasing follows]
      exact (and_iff_right follows).symm
    · -- The first frame is refused and none of the packet is added.
      obtain ⟨stop, refused⟩ :=
        @ValidFrame.decodeFrame_behind decoder receiveTsNs frame (slots 0) here rest.flatten follows
      obtain ⟨fuel, length⟩ : ∃ fuel, (frame :: rest).flatten.length = fuel + 1 := by
        rw [FrameHeader.size] at enough
        exact ⟨_, (Nat.succ_pred_eq_of_pos (by omega)).symm⟩
      have none : (ingestFrames receiveTsNs slots (frame :: rest).flatten
          (frame :: rest).flatten.length 0 0 decoder
          writer).1 = [] := by
        rw [length, ingestFrames, if_pos (by omega), List.drop_zero, List.flatten_cons]
        generalize decoder.decodeFrame (frame ++ rest.flatten)
          (slots 0) receiveTsNs = decoded at refused ⊢
        obtain ⟨after, event, outcome⟩ := decoded
        cases refused
        rfl
      rw [none, eq_comm, marketCalls_eq_nil_iff]
      refine ⟨fun control => absurd (.inl (control frame List.mem_cons_self)) follows,
        fun both => absurd both.1 follows⟩

theorem validFrame_frameBytes {type : MessageType} {sequence timestamp : UInt64} {payload : Bytes}
    (short : payload.length ≤ Limits.maxPayloadLength)
    (accepted : isControl type.value = false → ∀ slot,
      (decodePayload type.value payload (UInt32.ofNat payload.length) slot).2 = .ok ()) :
    ValidFrame receiveTsNs (frameBytes type sequence timestamp payload) where
  intact := intact_frameBytes short
  whole := by
    have size : (sentHeader type 0 1 sequence timestamp payload).payloadLength.toNat =
        payload.length :=
      toNat_payloadLength short
    rw [consumedBy, readHeader_frameBytes, size, frameBytes, List.length_append,
      FrameHeader.length_layout]
  accepted := by
    intro market
    rw [messageType, readHeader_frameBytes] at market
    rw [messageType, readHeader_frameBytes, payloadOf_frameBytes]
    exact accepted market _

def beatFrame : Bytes := frameBytes .heartbeat 1 7 (be64 7)

def endFrame : Bytes := frameBytes .endOfStream 2 8 []

theorem decodePayload_be64 (exchangeTsNs : UInt64) (slot : CanonicalEvent) :
    decodePayload MessageType.heartbeat.value (be64 exchangeTsNs) 8 slot =
      (⟨exchangeTsNs, slot.receiveTsNs, slot.sequence, 0, .heartbeat, .bid, 0, 0,
        0, 0, 0, 0⟩, .ok ()) := by
  unfold decodePayload
  rw [if_neg (by decide), if_neg (by decide), if_neg (by decide), if_neg (by decide), if_pos rfl]
  unfold decodeHeartbeat
  rw [if_neg (by decide), readFrom_be64]

theorem valid_beat_end : ∀ frame ∈ [beatFrame, endFrame], ValidFrame receiveTsNs frame := by
  intro frame listed
  rcases List.mem_pair.mp listed with rfl | rfl
  · exact validFrame_frameBytes (by rw [length_be64]; decide) fun _ slot =>
      congrArg Prod.snd (decodePayload_be64 7 slot)
  · exact validFrame_frameBytes (by decide) fun market => (nomatch market)

theorem frameSequence_beat_end : [beatFrame, endFrame].map frameSequence = [1, 2] := by
  have first : frameSequence beatFrame = 1 := congrArg FrameHeader.sequence readHeader_frameBytes
  have second : frameSequence endFrame = 2 := congrArg FrameHeader.sequence readHeader_frameBytes
  rw [List.map_cons, List.map_cons, first, second, List.map_nil]

theorem decodedEvent_beat : decodedEvent 9 beatFrame =
    ⟨7, 9, 1, 0, .heartbeat, .bid, 0, 0, 0, 0, 0, 0⟩ := by
  have kind : messageType beatFrame = MessageType.heartbeat.value :=
    congrArg FrameHeader.messageType readHeader_frameBytes
  have size : (Frame.readHeader beatFrame).payloadLength = 8 :=
    congrArg FrameHeader.payloadLength readHeader_frameBytes
  have number : frameSequence beatFrame = 1 := congrArg FrameHeader.sequence readHeader_frameBytes
  have payload : payloadOf beatFrame = be64 7 := payloadOf_frameBytes
  rw [decodedEvent, kind, payload, size, decodePayload_be64, stamped, number]
  rfl

theorem isControl_beat_end : isControl (messageType beatFrame) = false ∧
    isControl (messageType endFrame) = true := by
  have first : messageType beatFrame = 5 := congrArg FrameHeader.messageType readHeader_frameBytes
  have second : messageType endFrame = 255 := congrArg FrameHeader.messageType readHeader_frameBytes
  rw [first, second]
  decide

theorem ingests_beat_end (slots : Nat → CanonicalEvent) {writer : SegmentWriter}
    (room : writer.isFull = false) :
    Ingests 9 slots 0 writer [beatFrame, endFrame] ↔ isMarketEvent (slots 1) = false := by
  obtain ⟨grown, added⟩ := (addEvent_accepts_iff room).mpr
    ((validate_beat_iff 7 9 1).mpr ⟨by decide, by decide⟩)
  rw [Ingests, isControl_beat_end.1, if_neg Bool.false_ne_true, decodedEvent_beat, added]
  dsimp only
  rw [Ingests, if_pos isControl_beat_end.2]
  exact ⟨And.left, fun silent => ⟨silent, trivial⟩⟩

theorem follows_beat_end : Follows {} [beatFrame, endFrame] := by
  have number : frameSequence beatFrame = 1 := congrArg FrameHeader.sequence readHeader_frameBytes
  refine .inr ?_
  rw [number]
  decide

theorem market_rows_beat : ∃ writer, SegmentWriter.new 1 65536 = .ok writer ∧
    (ingestPayload 9 (fun _ => { emptyEvent with eventType := .invalid })
      [beatFrame, endFrame].flatten {} writer).1 =
      [(0, ⟨7, 9, 1, 0, .heartbeat, .bid, 0, 0, 0, 0, 0, 0⟩)] := by
  obtain ⟨writer, created⟩ : ∃ writer, SegmentWriter.new 1 65536 = .ok writer := ⟨_, rfl⟩
  have room : writer.isFull = false := by
    cases created
    rfl
  refine ⟨writer, created, ?_⟩
  have calls :=
    (market_rows_iff (fun _ => { emptyEvent with eventType := .invalid }) writer valid_beat_end
    (by rw [frameSequence_beat_end]; decide)).mpr
    ⟨follows_beat_end, (ingests_beat_end _ room).mpr rfl⟩
  rw [calls, marketCalls, isControl_beat_end.1, if_neg Bool.false_ne_true, marketCalls,
    if_pos isControl_beat_end.2, marketCalls, decodedEvent_beat]

/-- The storage still holds the heartbeat when the end of the stream is decoded into it: it is added
once more. -/
theorem market_rows_leftover : ∃ writer, SegmentWriter.new 1 65536 = .ok writer ∧
    (∀ frame ∈ [beatFrame, endFrame], ValidFrame 9 frame) ∧
      ([beatFrame, endFrame].map frameSequence).Pairwise (· < ·) ∧
    (ingestPayload 9 (fun _ => decodedEvent 9 beatFrame)
      [beatFrame, endFrame].flatten {} writer).1 ≠
      marketCalls 9 0 [beatFrame, endFrame] := by
  obtain ⟨writer, created⟩ : ∃ writer, SegmentWriter.new 1 65536 = .ok writer := ⟨_, rfl⟩
  have room : writer.isFull = false := by
    cases created
    rfl
  have increasing : ([beatFrame, endFrame].map frameSequence).Pairwise (· < ·) := by
    rw [frameSequence_beat_end]
    decide
  have header := (@valid_beat_end 9 beatFrame List.mem_cons_self).intact.1
  refine ⟨writer, created, valid_beat_end, increasing, ?_⟩
  unfold ingestPayload
  rw [if_pos (by rw [List.flatten_cons, List.length_append]; omega), ne_eq,
    ingestFrames_iff List.drop_zero (Nat.le_refl _) valid_beat_end increasing follows_beat_end,
    ingests_beat_end _ room, decodedEvent_beat]
  decide

end Decoder

end VectorTick.Vtp1
