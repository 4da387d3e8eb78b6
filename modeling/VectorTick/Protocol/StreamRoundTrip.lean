import VectorTick.Protocol.Decoder

/-! A stream of encoded events is decoded to the events, as far as their messages carry them. -/

set_option autoImplicit false

namespace VectorTick.Vtp1

open Foundation

theorem Frame.readHeader_layout (header : FrameHeader) (rest : Bytes) :
    Frame.readHeader (header.layout.bytes ++ rest) = header := by
  have fields := Layout.slices header.layout_tiles rest
  generalize header.layout.bytes ++ rest = memory at fields ⊢
  simp only [FrameHeader.layout, List.forall_mem_cons, length_be16, length_be32,
    length_be64, List.length_singleton]
    at fields
  obtain ⟨magic, version, type, flags, length, session, sequence, timestamp, crc, reserved, -⟩ :=
    fields
  unfold Frame.readHeader
  rw [magic, getD_of_slice version, getD_of_slice type, flags, length, session, sequence,
    timestamp, crc, reserved]
  simp only [be16Of_be16, be32Of_be32, be64Of_be64]

theorem reserved_bytes (reserved : Vector UInt8 3) (first : 0 < 3)
    (second : 1 < 3) (third : 2 < 3) :
    #v[reserved[0], reserved[1], reserved[2]] = reserved := by
  apply Vector.ext
  intro i inside
  interval_cases i
  · rfl
  · rfl
  · rfl

namespace QuotePayload

theorem layout_tiles (quote : QuotePayload) : quote.layout.Tiles 0 := by
  simp [layout, Layout.Tiles]

theorem length_layout (quote : QuotePayload) : quote.layout.bytes.length = size := by
  simp [layout, Layout.bytes, size]

theorem readFrom_layout (quote : QuotePayload) (rest : Bytes) :
    readFrom (quote.layout.bytes ++ rest) = quote := by
  have fields := Layout.slices quote.layout_tiles rest
  generalize quote.layout.bytes ++ rest = memory at fields ⊢
  simp only [layout, List.forall_mem_cons, length_be32, length_be64,
    List.length_singleton] at fields
  obtain ⟨ts, instrument, side, r0, r1, r2, bidPrice, bidQuantity, askPrice, askQuantity, -⟩ :=
    fields
  unfold readFrom
  rw [ts, instrument, getD_of_slice side, getD_of_slice r0, getD_of_slice r1, getD_of_slice r2,
    bidPrice, bidQuantity, askPrice, askQuantity, reserved_bytes]
  simp only [be32Of_be32, be64Of_be64, Int64.toInt64_toUInt64]

end QuotePayload

namespace TradePayload

theorem layout_tiles (trade : TradePayload) : trade.layout.Tiles 0 := by
  simp [layout, Layout.Tiles]

theorem length_layout (trade : TradePayload) : trade.layout.bytes.length = size := by
  simp [layout, Layout.bytes, size]

theorem readFrom_layout (trade : TradePayload) (rest : Bytes) :
    readFrom (trade.layout.bytes ++ rest) = trade := by
  have fields := Layout.slices trade.layout_tiles rest
  generalize trade.layout.bytes ++ rest = memory at fields ⊢
  simp only [layout, List.forall_mem_cons, length_be16, length_be32, length_be64,
    List.length_singleton] at fields
  obtain ⟨ts, instrument, side, r0, r1, r2, price, quantity, tradeId, venue, source, -⟩ := fields
  unfold readFrom
  rw [ts, instrument, getD_of_slice side, getD_of_slice r0, getD_of_slice r1, getD_of_slice r2,
    price, quantity, tradeId, venue, source, reserved_bytes]
  simp only [be16Of_be16, be32Of_be32, be64Of_be64, Int64.toInt64_toUInt64]

end TradePayload

namespace BookDeltaPayload

theorem layout_tiles (delta : BookDeltaPayload) : delta.layout.Tiles 0 := by
  simp [layout, Layout.Tiles]

theorem length_layout (delta : BookDeltaPayload) : delta.layout.bytes.length + 4 = size := by
  simp [layout, Layout.bytes, size]

theorem readFrom_layout (delta : BookDeltaPayload) (rest : Bytes) :
    readFrom (delta.layout.bytes ++ rest) = delta := by
  have fields := Layout.slices delta.layout_tiles rest
  generalize delta.layout.bytes ++ rest = memory at fields ⊢
  simp only [layout, List.forall_mem_cons, length_be16, length_be32, length_be64,
    List.length_singleton] at fields
  obtain ⟨ts, instrument, side, level, operation, reserved, price, quantity, order, venue,
    source, flags, -⟩ := fields
  unfold readFrom
  rw [ts, instrument, getD_of_slice side, getD_of_slice level, getD_of_slice operation,
    getD_of_slice reserved, price, quantity, order, venue, source, flags]
  simp only [be16Of_be16, be32Of_be32, be64Of_be64, Int64.toInt64_toUInt64]

end BookDeltaPayload

namespace StatusPayload

theorem layout_tiles (status : StatusPayload) : status.layout.Tiles 0 := by
  simp [layout, Layout.Tiles]

theorem length_layout (status : StatusPayload) : status.layout.bytes.length = size := by
  simp [layout, Layout.bytes, size]

theorem readFrom_layout (status : StatusPayload) (rest : Bytes) :
    readFrom (status.layout.bytes ++ rest) = status := by
  have fields := Layout.slices status.layout_tiles rest
  generalize status.layout.bytes ++ rest = memory at fields ⊢
  simp only [layout, List.forall_mem_cons, length_be16, length_be32, length_be64,
    List.length_singleton] at fields
  obtain ⟨ts, instrument, code, reason, reserved, -⟩ := fields
  unfold readFrom
  rw [ts, instrument, getD_of_slice code, getD_of_slice reason, reserved]
  simp only [be16Of_be16, be32Of_be32, be64Of_be64]

end StatusPayload

namespace HeartbeatPayload

theorem layout_tiles (heartbeat : HeartbeatPayload) : heartbeat.layout.Tiles 0 := by
  simp [layout, Layout.Tiles]

theorem length_layout (heartbeat : HeartbeatPayload) : heartbeat.layout.bytes.length = size := by
  simp [layout, Layout.bytes, size]

theorem readFrom_layout (heartbeat : HeartbeatPayload) (rest : Bytes) :
    readFrom (heartbeat.layout.bytes ++ rest) = heartbeat := by
  have fields := Layout.slices heartbeat.layout_tiles rest
  generalize heartbeat.layout.bytes ++ rest = memory at fields ⊢
  simp only [layout, List.forall_mem_cons, length_be64] at fields
  obtain ⟨ts, -⟩ := fields
  unfold readFrom
  rw [ts, be64Of_be64]

end HeartbeatPayload

/-- The header a frame is sent with. -/
def sentHeader (type : MessageType) (flags : UInt16) (sessionId : UInt32)
    (sequence timestamp : UInt64)
    (payload : Bytes) : FrameHeader :=
  let header : FrameHeader := {
    magic := Magic.vtp1
    version := Version.vtp1
    messageType := type.value
    flags
    payloadLength := UInt32.ofNat payload.length
    sessionId, sequence
    sendTimestampNs := timestamp
    crc32c := 0
    reserved := 0 }
  { header with crc32c := Frame.computeCrc header payload }

section Sent

variable {type : MessageType} {flags : UInt16} {sessionId : UInt32}
  {sequence timestamp : UInt64} {payload : Bytes}

theorem toNat_payloadLength (short : payload.length ≤ Limits.maxPayloadLength) :
    (UInt32.ofNat payload.length).toNat = payload.length := by
  unfold Limits.maxPayloadLength at short
  rw [UInt32.toNat_ofNat', Nat.mod_eq_of_lt (by omega)]

/-- What follows the payload does not enter the checksum. -/
theorem computeCrc_append (header : FrameHeader)
    (length : header.payloadLength.toNat = payload.length) (rest : Bytes) :
    Frame.computeCrc header (payload ++ rest) = Frame.computeCrc header payload := by
  unfold Frame.computeCrc
  rw [length, List.take_left, List.take_length]

theorem readFrame_sent (short : payload.length ≤ Limits.maxPayloadLength) (rest : Bytes) :
    Frame.readFrame ((sentHeader type flags sessionId sequence timestamp payload).layout.bytes ++
      (payload ++ rest)) =
      some (sentHeader type flags sessionId sequence timestamp payload, payload ++ rest,
        FrameHeader.size + payload.length) := by
  generalize sent : sentHeader type flags sessionId sequence timestamp payload = header
  have length : header.payloadLength.toNat = payload.length := by
    rw [← sent]
    exact toNat_payloadLength short
  have whole := header.length_layout
  unfold Frame.readFrame
  rw [Frame.readHeader_layout, List.drop_left' whole]
  simp only [length, List.length_append, whole]
  rw [if_neg (by omega), if_neg (by omega)]

theorem validate_sent (short : payload.length ≤ Limits.maxPayloadLength)
    (rest : Bytes) {available : Nat}
    (there : FrameHeader.size + payload.length ≤ available) :
    Frame.validate (sentHeader type flags sessionId sequence timestamp payload)
    (payload ++ rest) available = .ok () := by
  have length := toNat_payloadLength short
  have known : ¬ (type.value > MessageType.heartbeat.value ∧
      type.value ≠ MessageType.endOfStream.value) := by
    cases type <;> decide
  have crc : Frame.computeCrc (sentHeader type flags sessionId sequence timestamp payload)
      (payload ++ rest) =
      (sentHeader type flags sessionId sequence timestamp payload).crc32c := by
    rw [computeCrc_append _ length]
    rfl
  unfold Frame.validate
  rw [crc]
  simp only [sentHeader, FrameHeader.isValidMagic, FrameHeader.isValidVersion,
    FrameHeader.isValidReserved, length, known, decide_true, Bool.not_true, Bool.false_eq_true,
    if_false, ne_eq, not_true_eq_false]
  rw [if_neg (by omega), if_neg (by omega)]
  rfl

end Sent

theorem writeFrameFrom_eq {buffer payload : Bytes} (type : MessageType)
    (flags : UInt16) (sessionId : UInt32)
    (sequence timestamp : UInt64) (room : FrameHeader.size + payload.length ≤ buffer.length) :
    ∃ after, Frame.writeFrameFrom buffer type flags sessionId sequence
      timestamp payload = .ok after ∧
      after.take (FrameHeader.size + payload.length) =
        (sentHeader type flags sessionId sequence timestamp payload).layout.bytes ++ payload := by
  have whole := (sentHeader type flags sessionId sequence timestamp payload).length_layout
  have fits : 0 + 0 + (sentHeader type flags sessionId sequence timestamp
      payload).layout.bytes.length ≤ buffer.length := by
    omega
  obtain ⟨middle, headed, first⟩ := Layout.writeTo_tiles Stop.fault 0
    (sentHeader type flags sessionId sequence timestamp payload).layout_tiles fits
  obtain ⟨after, copied, second⟩ :=
    store_inside Stop.fault middle FrameHeader.size payload (by rw [first.length]; omega)
  refine ⟨after, ?_, ?_⟩
  · have wrote : ((sentHeader type flags sessionId sequence timestamp payload).layout.writeTo
        .fault 0 buffer >>=
        fun buffer => storeTo buffer FrameHeader.size payload) = .ok after := by
      rw [headed, ok_bind]
      exact copied
    exact wrote
  · have both := first.trans (by rw [whole]; exact second)
    have front := both.front
    rwa [List.length_append, whole, List.take_zero, List.nil_append,
      Nat.add_zero, Nat.zero_add] at front

theorem writeFrameFrom_room {buffer payload after : Bytes} {type : MessageType}
    {flags : UInt16} {sessionId : UInt32}
    {sequence timestamp : UInt64}
    (written : Frame.writeFrameFrom buffer type flags sessionId sequence
      timestamp payload = .ok after) :
    FrameHeader.size + payload.length ≤ buffer.length := by
  have steps : ((sentHeader type flags sessionId sequence timestamp payload).layout.writeTo
      .fault 0 buffer >>=
      fun buffer => storeTo buffer FrameHeader.size payload) = .ok after := written
  cases headed : (sentHeader type flags sessionId sequence timestamp payload).layout.writeTo
    Stop.fault 0 buffer with
  | error stop =>
    rw [headed] at steps
    cases steps
  | ok middle =>
    rw [headed, ok_bind, storeTo] at steps
    obtain ⟨length, fields⟩ := Layout.writeTo_room headed
    have last :=
      fields (36, be32 (sentHeader type flags sessionId sequence timestamp payload).reserved)
      (by simp [FrameHeader.layout]) (List.ne_nil_of_length_pos (by simp))
    rw [length_be32] at last
    by_cases empty : payload = []
    · rw [empty, List.length_nil, FrameHeader.size]
      omega
    · by_contra outside
      rw [store_outside Stop.fault middle _ _ empty (by omega)] at steps
      cases steps

theorem writeFrame_eq {buffer payload : Bytes} (type : MessageType)
    (flags : UInt16) (sessionId : UInt32)
    (sequence timestamp : UInt64) (short : payload.length ≤ Limits.maxPayloadLength)
    (room : FrameHeader.size + payload.length ≤ buffer.length)
    (placed : slice buffer FrameHeader.size payload.length = payload) :
    ∃ after, Frame.writeFrame buffer type flags sessionId sequence timestamp
      (UInt32.ofNat payload.length) = .ok after ∧
      after.take (FrameHeader.size + payload.length) =
        (sentHeader type flags sessionId sequence timestamp payload).layout.bytes ++ payload := by
  have length := toNat_payloadLength short
  rw [Frame.writeFrame_eq_from _ _ _ _ _ _ _ (by omega), length, placed]
  exact writeFrameFrom_eq type flags sessionId sequence timestamp room

/-- Reading a written frame gives back what was written, with or without the payload in place, and
whatever follows the frame. -/
theorem frame_round_trip {buffer payload : Bytes} (type : MessageType)
    (flags : UInt16) (sessionId : UInt32)
    (sequence timestamp : UInt64) (short : payload.length ≤ Limits.maxPayloadLength)
    (room : FrameHeader.size + payload.length ≤ buffer.length) :
    ∃ after, Frame.writeFrameFrom buffer type flags sessionId sequence
      timestamp payload = .ok after ∧
      (slice buffer FrameHeader.size payload.length = payload →
        Frame.writeFrame buffer type flags sessionId sequence timestamp
          (UInt32.ofNat payload.length) = .ok after) ∧
      ∀ bytes : Bytes, bytes.take (FrameHeader.size + payload.length) =
        after.take (FrameHeader.size + payload.length) →
        ∃ header behind, Frame.readFrame bytes =
          some (header, behind, FrameHeader.size + payload.length) ∧
          header.messageType = type.value ∧ header.flags = flags ∧
            header.payloadLength.toNat = payload.length ∧
          header.sessionId = sessionId ∧ header.sequence = sequence ∧
            header.sendTimestampNs = timestamp ∧
          behind.take payload.length = payload ∧
            Frame.validate header behind bytes.length = .ok () := by
  have length := toNat_payloadLength short
  obtain ⟨after, written, frame⟩ := writeFrameFrom_eq type flags sessionId sequence timestamp room
  refine ⟨after, written, fun placed => ?_, fun bytes same => ?_⟩
  · rw [Frame.writeFrame_eq_from _ _ _ _ _ _ _ (by omega), length, placed, written]
  · have whole : bytes =
        (sentHeader type flags sessionId sequence timestamp payload).layout.bytes ++
        (payload ++ bytes.drop (FrameHeader.size + payload.length)) := by
      rw [← List.append_assoc, ← frame, ← same, List.take_append_drop]
    have enough : FrameHeader.size + payload.length ≤ bytes.length := by
      rw [whole, List.length_append, List.length_append, FrameHeader.length_layout]
      omega
    have read := @readFrame_sent type flags sessionId sequence timestamp payload short
      (bytes.drop (FrameHeader.size + payload.length))
    rw [← whole] at read
    exact ⟨_, _, read, rfl, rfl, length, rfl, rfl, rfl, List.take_left,
      validate_sent short _ enough⟩

theorem frame_round_trip_beat :
    ∃ after, Frame.writeFrameFrom (List.replicate 49 0) .heartbeat 4 1 5 7 (be64 7) = .ok after ∧
      ∃ header behind, Frame.readFrame after = some (header, behind, 48) ∧ header.flags = 4 ∧
        behind.take 8 = be64 7 ∧ Frame.validate header behind after.length = .ok () := by
  obtain ⟨after, written, -, reads⟩ :=
    @frame_round_trip (List.replicate 49 0) (be64 7) .heartbeat 4 1 5 7
    (by rw [length_be64]; decide) (by rw [length_be64]; decide)
  obtain ⟨header, behind, read, -, flags, -, -, -, -, payload, valid⟩ := reads after rfl
  exact ⟨after, written, header, behind, read, flags, payload, valid⟩

namespace Encoder

theorem message_cases {event : CanonicalEvent} {sent : Message}
    (found : message event = some sent) :
    (event.eventType = .quote ∧ sent = ⟨.quote, QuotePayload.size, (quotePayload event).layout⟩) ∨
    (event.eventType = .trade ∧ sent = ⟨.trade, TradePayload.size, (tradePayload event).layout⟩) ∨
    (event.eventType = .bookDelta ∧
      sent = ⟨.bookDelta, BookDeltaPayload.size, (bookDeltaPayload event).layout⟩) ∨
    (event.eventType = .status ∧
      sent = ⟨.status, StatusPayload.size, (statusPayload event).layout⟩) ∨
    (event.eventType = .heartbeat ∧
      sent = ⟨.heartbeat, HeartbeatPayload.size,
        (HeartbeatPayload.mk event.exchangeTsNs).layout⟩) := by
  unfold message at found
  split at found
  · next type => exact .inl ⟨type, (Option.some.inj found).symm⟩
  · split at found
    · next type => exact .inr (.inl ⟨type, (Option.some.inj found).symm⟩)
    · split at found
      · next type => exact .inr (.inr (.inl ⟨type, (Option.some.inj found).symm⟩))
      · split at found
        · next type => exact .inr (.inr (.inr (.inl ⟨type, (Option.some.inj found).symm⟩)))
        · split at found
          · next type => exact .inr (.inr (.inr (.inr ⟨type, (Option.some.inj found).symm⟩)))
          · cases found

/-- The writes of every message lie side by side in its payload; a book delta leaves four bytes. -/
theorem message_tiles {event : CanonicalEvent} {sent : Message}
    (found : message event = some sent) :
    sent.payload.Tiles 0 ∧ sent.payload.bytes.length ≤ sent.payloadSize ∧
      sent.payloadSize ≤ Limits.maxPayloadLength := by
  rcases message_cases found with ⟨-, rfl⟩ | ⟨-, rfl⟩ | ⟨-, rfl⟩ | ⟨-, rfl⟩ | ⟨-, rfl⟩
  · exact ⟨QuotePayload.layout_tiles _, (QuotePayload.length_layout _).le, by dsimp only; decide⟩
  · exact ⟨TradePayload.layout_tiles _, (TradePayload.length_layout _).le, by dsimp only; decide⟩
  · have length := (bookDeltaPayload event).length_layout
    exact ⟨BookDeltaPayload.layout_tiles _, by dsimp only; omega, by dsimp only; decide⟩
  · exact ⟨StatusPayload.layout_tiles _, (StatusPayload.length_layout _).le, by dsimp only; decide⟩
  · exact ⟨HeartbeatPayload.layout_tiles _,
      (HeartbeatPayload.length_layout _).le, by dsimp only; decide⟩

/-- The frame of an event: a header and a payload that begins with the message's fields. What
follows them in a book delta was in the buffer before. -/
theorem encodeEvent_frame (encoder : Encoder) {event : CanonicalEvent}
    {sent : Message} {buffer : Bytes}
    (found : message event = some sent) (room : FrameHeader.size + sent.payloadSize ≤ buffer.length)
    (sessionId : UInt32) :
    ∃ after payload, encoder.encodeEvent event buffer sessionId =
        (encoder.counted, .ok (after, FrameHeader.size + payload.length)) ∧
      payload.length = sent.payloadSize ∧ (∃ rest, payload = sent.payload.bytes ++ rest) ∧
      after.take (FrameHeader.size + payload.length) =
        (sentHeader sent.type 0 sessionId event.sequence event.exchangeTsNs payload).layout.bytes ++
          payload := by
  obtain ⟨tiles, fits, short⟩ := message_tiles found
  obtain ⟨middle, written, wrote⟩ := Layout.writeTo_tiles Stop.fault FrameHeader.size tiles
    (show FrameHeader.size + 0 + sent.payload.bytes.length ≤ buffer.length by omega)
  rw [Nat.add_zero] at wrote
  have split : slice middle FrameHeader.size sent.payloadSize = sent.payload.bytes ++
      slice middle (FrameHeader.size + sent.payload.bytes.length)
        (sent.payloadSize - sent.payload.bytes.length) := by
    rw [← wrote.slice_block (by omega), length_slice (by rw [wrote.length]; omega), ← slice_add,
      Nat.add_sub_cancel' fits]
  have length : (slice middle FrameHeader.size sent.payloadSize).length = sent.payloadSize :=
    length_slice (by rw [wrote.length]; omega)
  generalize placed : slice middle FrameHeader.size sent.payloadSize = payload at split length
  obtain ⟨after, framed, front⟩ :=
    writeFrame_eq sent.type 0 sessionId event.sequence event.exchangeTsNs
    (by rw [length]; exact short) (by rw [wrote.length, length]; exact room)
      (by rw [length]; exact placed)
  refine ⟨after, payload, ?_, length, ⟨_, split⟩, front⟩
  rw [length] at framed
  unfold encodeEvent
  rw [found]
  dsimp only
  rw [if_neg (by omega), written, ok_bind, framed, ok_bind, length]
  rfl

end Encoder

/-- An event as its message carries it, received at the given time or else when it was sent. -/
def carried (receiveTsNs : UInt64) (event : CanonicalEvent) : CanonicalEvent :=
  let received := if receiveTsNs = 0 then event.exchangeTsNs else receiveTsNs
  let bare : CanonicalEvent := {
    exchangeTsNs := event.exchangeTsNs
    receiveTsNs := received
    sequence := event.sequence
    instrumentId := 0
    eventType := event.eventType
    side := .bid
    flags := 0
    priceTicks := 0
    quantity := 0
    venueId := 0
    sourceId := 0
    tradeOrOrderId := 0 }
  if event.eventType = .trade then { event with receiveTsNs := received, flags := 0 }
  else if event.eventType = .bookDelta then { event with receiveTsNs := received }
  else if event.eventType = .quote then
    { bare with
      instrumentId := event.instrumentId
      side := event.side
      priceTicks := event.priceTicks
      quantity := event.quantity }
  else if event.eventType = .status then
    { bare with instrumentId := event.instrumentId, flags := event.flags }
  else bare

/-- The two bytes of the flags that a status message carries. -/
theorem flags_split (flags : UInt16) :
    ((flags >>> 8).toUInt8.toUInt16 <<< 8) ||| (flags &&& 0xFF).toUInt8.toUInt16 = flags := by
  apply UInt16.toNat_inj.mp
  have low := flags.toNat_lt
  have mask : flags.toNat &&& 255 = flags.toNat % 256 :=
    Nat.and_two_pow_sub_one_eq_mod flags.toNat 8
  have high : (flags.toNat / 256 % 256 * 256) % 65536 = 256 * (flags.toNat / 256) := by omega
  simp only [UInt16.toNat_or, UInt16.toNat_shiftLeft, UInt8.toNat_toUInt16, UInt16.toNat_toUInt8,
    UInt16.toNat_shiftRight, UInt16.toNat_and]
  simp only [UInt16.toNat_ofNat, Nat.shiftRight_eq_div_pow, Nat.shiftLeft_eq]
  norm_num
  rw [mask, high, Nat.mod_mod]
  have joined := Nat.two_pow_add_eq_or_of_lt (show flags.toNat % 256 <
    2 ^ 8 by omega) (flags.toNat / 256)
  norm_num at joined
  omega

theorem carried_valid {receiveTsNs : UInt64} (bounded : receiveTsNs ≤ Limits.maxTimestamp) {event : CanonicalEvent}
    (valid : Event.Valid event) (sided : event.side = .bid ∨ event.side = .ask) :
    Event.Valid (carried receiveTsNs event) := by
  have time : (if receiveTsNs = 0 then event.exchangeTsNs else receiveTsNs) ≤ Limits.maxTimestamp := by
    split
    · exact valid.exchangeTs
    · exact bounded
  have side : event.side.value ≤ Side.ask.value := by
    rcases sided with side | side <;> rw [side] <;> decide
  have noVenue : (0 : UInt16) < Limits.maxVenues := by decide
  have noSource : (0 : UInt16) < Limits.maxSources := by decide
  have noInstrument : (0 : UInt32) < Limits.maxInstruments := by decide
  have noPrice : -Limits.maxPrice ≤ (0 : Int64) ∧ (0 : Int64) ≤ Limits.maxPrice := by decide
  have noQuantity : (0 : UInt32) ≤ Limits.maxQuantity := by decide
  have bid : Side.bid.value ≤ Side.ask.value := by decide
  unfold carried
  generalize (if receiveTsNs = 0 then event.exchangeTsNs else receiveTsNs) = received at time ⊢
  dsimp only
  split
  · exact { valid with receiveTs := time, side := .inr side }
  · split
    · exact { valid with receiveTs := time, side := .inr side }
    · split
      · exact {
          valid with receiveTs := time, side := .inr side, venue := noVenue, source := noSource }
      · split
        · exact {
            valid with
            receiveTs := time, side := .inr bid, priceLow := noPrice.1, priceHigh := noPrice.2
            quantity := noQuantity, venue := noVenue, source := noSource }
        · exact {
            valid with
            receiveTs := time, side := .inr bid, instrument := noInstrument, priceLow := noPrice.1
            priceHigh := noPrice.2, quantity := noQuantity, venue := noVenue, source := noSource }

section Decoding

variable {receiveTsNs : UInt64} {event : CanonicalEvent} {sent : Encoder.Message}

/-- The event as the decoder has it before it looks into the payload. -/
def received (receiveTsNs : UInt64) (event slot : CanonicalEvent) : CanonicalEvent :=
  { slot with
    receiveTsNs := if receiveTsNs > 0 then receiveTsNs else event.exchangeTsNs
    sequence := event.sequence }

theorem received_time (receiveTsNs exchangeTsNs : UInt64) :
    (if receiveTsNs > 0 then receiveTsNs else exchangeTsNs) =
      if receiveTsNs = 0 then exchangeTsNs else receiveTsNs := by
  by_cases zero : receiveTsNs = 0
  · rw [zero]
    rfl
  · rw [if_pos (UInt64.pos_iff_ne_zero.mpr zero), if_neg zero]

theorem decodeQuote_sent (type : event.eventType = .quote)
    (sided : event.side = .bid ∨ event.side = .ask)
    (slot : CanonicalEvent) (rest : Bytes) :
    Decoder.decodeQuote ((Encoder.quotePayload event).layout.bytes ++ rest)
    (UInt32.ofNat QuotePayload.size)
        (received receiveTsNs event slot) =
      (carried receiveTsNs event, Event.validate (carried receiveTsNs event)) := by
  have others : (EventType.quote = .trade) = False ∧
      (EventType.quote = .bookDelta) = False := by decide
  have sides : (Side.mk Side.bid.value = .ask) = False ∧ (Side.bid = .ask) = False := by decide
  unfold Decoder.decodeQuote
  rw [if_neg (by decide), QuotePayload.readFrom_layout]
  rcases sided with side | side
  · simp only [received, received_time, carried, Encoder.quotePayload, type, side, others,
      sides, if_false, if_true]
  · simp only [received, received_time, carried, Encoder.quotePayload, type, side,
      others, if_false, if_true]

theorem decodeTrade_sent (type : event.eventType = .trade) (slot : CanonicalEvent) (rest : Bytes) :
    Decoder.decodeTrade ((Encoder.tradePayload event).layout.bytes ++ rest)
    (UInt32.ofNat TradePayload.size)
        (received receiveTsNs event slot) =
      (carried receiveTsNs event, Event.validate (carried receiveTsNs event)) := by
  unfold Decoder.decodeTrade
  rw [if_neg (by decide), TradePayload.readFrom_layout]
  simp only [received, received_time, carried, Encoder.tradePayload, type, if_true]

theorem decodeBookDelta_sent (type : event.eventType = .bookDelta)
    (slot : CanonicalEvent) (rest : Bytes) :
    Decoder.decodeBookDelta ((Encoder.bookDeltaPayload event).layout.bytes ++ rest)
        (UInt32.ofNat BookDeltaPayload.size) (received receiveTsNs event slot) =
      (carried receiveTsNs event, Event.validate (carried receiveTsNs event)) := by
  have others : (EventType.bookDelta = .trade) = False := by decide
  unfold Decoder.decodeBookDelta
  rw [if_neg (by decide), BookDeltaPayload.readFrom_layout]
  simp only [received, received_time, carried, Encoder.bookDeltaPayload, type, others, if_false,
    if_true, UInt16.toUInt16_toUInt32]

theorem decodeStatus_sent (type : event.eventType = .status)
    (slot : CanonicalEvent) (rest : Bytes) :
    Decoder.decodeStatus ((Encoder.statusPayload event).layout.bytes ++ rest)
    (UInt32.ofNat StatusPayload.size)
        (received receiveTsNs event slot) =
      (carried receiveTsNs event, Event.validate (carried receiveTsNs event)) := by
  have others : (EventType.status = .trade) = False ∧ (EventType.status = .bookDelta) = False ∧
      (EventType.status = .quote) = False := by decide
  unfold Decoder.decodeStatus
  rw [if_neg (by decide), StatusPayload.readFrom_layout]
  simp only [received, received_time, carried, Encoder.statusPayload, type, others,
    flags_split, if_false, if_true]

theorem decodeHeartbeat_sent (type : event.eventType = .heartbeat)
    (slot : CanonicalEvent) (rest : Bytes) :
    Decoder.decodeHeartbeat ((HeartbeatPayload.mk event.exchangeTsNs).layout.bytes ++ rest)
        (UInt32.ofNat HeartbeatPayload.size) (received receiveTsNs event slot) =
      (carried receiveTsNs event, .ok ()) := by
  have others : (EventType.heartbeat = .trade) = False ∧
      (EventType.heartbeat = .bookDelta) = False ∧
      (EventType.heartbeat = .quote) = False ∧ (EventType.heartbeat = .status) = False := by decide
  unfold Decoder.decodeHeartbeat
  rw [if_neg (by decide), HeartbeatPayload.readFrom_layout]
  simp only [received, received_time, carried, type, others, if_false]

theorem decodePayload_sent (bounded : receiveTsNs ≤ Limits.maxTimestamp) (valid : Event.Valid event)
    (sided : event.side = .bid ∨ event.side = .ask) (found : Encoder.message event = some sent)
    (slot : CanonicalEvent) (rest : Bytes) :
    Decoder.decodePayload sent.type.value (sent.payload.bytes ++ rest)
    (UInt32.ofNat sent.payloadSize)
      (received receiveTsNs event slot) = (carried receiveTsNs event, .ok ()) := by
  have accepted := Event.validate_of_valid (carried_valid bounded valid sided)
  rcases Encoder.message_cases found with ⟨type, rfl⟩ | ⟨type, rfl⟩ | ⟨type, rfl⟩ |
    ⟨type, rfl⟩ | ⟨type, rfl⟩
  · exact (decodeQuote_sent type sided slot rest).trans (by rw [accepted])
  · exact (decodeTrade_sent type slot rest).trans (by rw [accepted])
  · exact (decodeBookDelta_sent type slot rest).trans (by rw [accepted])
  · exact (decodeStatus_sent type slot rest).trans (by rw [accepted])
  · exact decodeHeartbeat_sent type slot rest

theorem not_control (found : Encoder.message event = some sent) :
    Decoder.isControl sent.type.value = false := by
  rcases Encoder.message_cases found with ⟨-, rfl⟩ | ⟨-, rfl⟩ | ⟨-, rfl⟩ |
    ⟨-, rfl⟩ | ⟨-, rfl⟩ <;> rfl

theorem decodeFrame_sent (bounded : receiveTsNs ≤ Limits.maxTimestamp) (valid : Event.Valid event)
    (sided : event.side = .bid ∨ event.side = .ask)
    (found : Encoder.message event = some sent) {payload : Bytes}
    (length : payload.length = sent.payloadSize)
    (contents : ∃ tail, payload = sent.payload.bytes ++ tail)
    {decoder : Decoder} (later : decoder.lastSequence < event.sequence)
    (sessionId : UInt32) (slot : CanonicalEvent)
    (rest : Bytes) :
    decoder.decodeFrame
      ((sentHeader sent.type 0 sessionId event.sequence event.exchangeTsNs payload).layout.bytes ++
        (payload ++ rest)) slot receiveTsNs =
      ({ decoder with lastSessionId := sessionId, lastSequence := event.sequence }.counted,
        carried receiveTsNs event, .ok (FrameHeader.size + payload.length)) := by
  have short : payload.length ≤ Limits.maxPayloadLength := by
    rw [length]
    exact (Encoder.message_tiles found).2.2
  have accepted :=
    @validate_sent sent.type 0 sessionId event.sequence event.exchangeTsNs payload short rest
    (FrameHeader.size + (payload ++ rest).length) (by rw [List.length_append]; omega)
  have control := not_control found
  obtain ⟨tail, split⟩ := contents
  have filled := decodePayload_sent bounded valid sided found slot (tail ++ rest)
  rw [← List.append_assoc, ← split, ← length] at filled
  have read :=
    @readFrame_sent sent.type 0 sessionId event.sequence event.exchangeTsNs payload short rest
  generalize header : sentHeader sent.type 0 sessionId event.sequence event.exchangeTsNs payload =
    sentHead at accepted read
  have fields : sentHead.sequence = event.sequence ∧ sentHead.sessionId = sessionId ∧
      sentHead.messageType = sent.type.value ∧ sentHead.sendTimestampNs = event.exchangeTsNs ∧
      sentHead.payloadLength = UInt32.ofNat payload.length := by
    rw [← header]
    exact ⟨rfl, rfl, rfl, rfl, rfl⟩
  obtain ⟨sequence, session, type, timestamp, size⟩ := fields
  unfold received at filled
  unfold Decoder.decodeFrame
  rw [read, List.length_append, FrameHeader.length_layout]
  dsimp only
  rw [accepted]
  simp only [sequence, session, type, timestamp, size, control, Bool.not_false, and_true,
    Bool.false_eq_true, if_false, filled]
  rw [if_neg (UInt64.not_le.mpr later)]

end Decoding

theorem Encoder.message_of_valid {event : CanonicalEvent} (valid : Event.Valid event) :
    ∃ sent, Encoder.message event = some sent := by
  have named : event.eventType = .quote ∨ event.eventType = .trade ∨ event.eventType = .bookDelta ∨
      event.eventType = .status ∨ event.eventType = .heartbeat := by
    have low := UInt8.le_iff_toNat_le.mp valid.eventType
    generalize event.eventType = type at low
    obtain ⟨value⟩ := type
    simp only [EventType.quote, EventType.trade, EventType.bookDelta, EventType.status,
      EventType.heartbeat, EventType.mk.injEq, ← UInt8.toNat_inj] at low ⊢
    have bound : value.toNat ≤ 4 := low
    simp only [UInt8.toNat_ofNat]
    omega
  unfold Encoder.message
  rcases named with type | type | type | type | type <;> rw [type]
  · exact ⟨_, rfl⟩
  · exact ⟨_, rfl⟩
  · exact ⟨_, rfl⟩
  · exact ⟨_, rfl⟩
  · exact ⟨_, rfl⟩

section Streams

variable {receiveTsNs : UInt64}

/-- An encode call that the stream may begin with: a valid event and a buffer with room for it. -/
structure Sendable (call : CanonicalEvent × Bytes) : Prop where
  valid : Event.validate call.1 = .ok ()
  sided : call.1.side = .bid ∨ call.1.side = .ask
  room : ∀ sent, Encoder.message call.1 = some sent →
    FrameHeader.size + sent.payloadSize ≤ call.2.length

/-- Encoding goes through, and decoding from where the frames begin takes them all. -/
theorem decodeStream_encodeStream (bounded : receiveTsNs ≤ Limits.maxTimestamp) (sessionId : UInt32)
    {calls : List (CanonicalEvent × Bytes)} (sendable : ∀ call ∈ calls, Sendable call)
    (increasing : (calls.map (·.1.sequence)).Pairwise (· < ·)) (encoder : Encoder) :
    ∃ frames, (encoder.encodeStream sessionId calls).2 = .ok frames ∧ calls.length ≤ frames.length ∧
      ∀ (decoder : Decoder) (slot : CanonicalEvent) (front : Bytes) (fuel : Nat),
        (∀ call ∈ calls, decoder.lastSequence < call.1.sequence) → calls.length ≤ fuel →
        (Decoder.decodeStream receiveTsNs (front ++ frames) fuel decoder slot front.length).2 =
          .ok (calls.map fun call => carried receiveTsNs call.1, (front ++ frames).length) := by
  induction calls generalizing encoder with
  | nil =>
    refine ⟨[], rfl, by simp, fun decoder slot front fuel _ _ => ?_⟩
    cases fuel with
    | zero => simp [Decoder.decodeStream]
    | succ fuel => simp [Decoder.decodeStream]
  | cons call rest ih =>
    obtain ⟨event, buffer⟩ := call
    have here := sendable (event, buffer) (by simp)
    have valid := Event.valid_of_validate here.valid
    obtain ⟨sent, found⟩ := Encoder.message_of_valid valid
    obtain ⟨after, payload, encoded, length, contents, framed⟩ :=
      encoder.encodeEvent_frame found (here.room sent found) sessionId
    rw [List.map_cons, List.pairwise_cons] at increasing
    obtain ⟨frames, others, counted, decodes⟩ :=
      ih (fun call listed => sendable call (by simp [listed])) increasing.2 encoder.counted
    generalize header : sentHeader sent.type 0 sessionId event.sequence event.exchangeTsNs payload = head at framed
    have size : (head.layout.bytes ++ payload).length = FrameHeader.size + payload.length := by
      rw [List.length_append, FrameHeader.length_layout]
    refine ⟨head.layout.bytes ++ payload ++ frames, ?_, ?_, ?_⟩
    · unfold Encoder.encodeStream
      rw [encoded]
      dsimp only
      generalize encoder.counted.encodeStream sessionId rest = outcome at others
      obtain ⟨last, result⟩ := outcome
      dsimp only at others
      rw [others, framed]
    · rw [List.length_cons, List.length_append, size, FrameHeader.size]
      omega
    · intro decoder slot front fuel later enough
      obtain ⟨fuel, rfl⟩ :=
        Nat.exists_eq_add_of_le' (show 1 ≤ fuel by rw [List.length_cons] at enough; omega)
      have first :=
        decodeFrame_sent bounded valid here.sided found length contents
        (later (event, buffer) (by simp))
        sessionId slot frames
      rw [header] at first
      -- The frames behind this one are decoded by a decoder that has seen its sequence number.
      have second := decodes
        ({ decoder with lastSessionId := sessionId, lastSequence := event.sequence }.counted)
        (carried receiveTsNs event) (front ++ (head.layout.bytes ++ payload)) fuel
        (fun call listed => increasing.1 _ (List.mem_map_of_mem listed))
          (by rw [List.length_cons] at enough; omega)
      rw [List.append_assoc, List.length_append, size] at second
      have more : front.length < (front ++ (head.layout.bytes ++ (payload ++ frames))).length := by
        rw [List.length_append, List.length_append, FrameHeader.length_layout, FrameHeader.size]
        omega
      rw [List.append_assoc] at second
      unfold Decoder.decodeStream
      rw [List.append_assoc head.layout.bytes, if_pos more, List.drop_left, first]
      dsimp only
      generalize Decoder.decodeStream receiveTsNs
        (front ++ (head.layout.bytes ++ (payload ++ frames))) fuel
        { decoder with lastSessionId := sessionId, lastSequence := event.sequence }.counted
        (carried receiveTsNs event)
          (front.length + (FrameHeader.size + payload.length)) = outcome at second
      obtain ⟨last, result⟩ := outcome
      dsimp only at second
      rw [second]
      rfl

/-- Every stream of valid events with increasing sequence numbers is decoded completely, and yields
the events as their messages carry them. -/
theorem stream_round_trip (bounded : receiveTsNs ≤ Limits.maxTimestamp) (sessionId : UInt32)
    {calls : List (CanonicalEvent × Bytes)} (sendable : ∀ call ∈ calls, Sendable call)
    (positive : ∀ call ∈ calls, 0 < call.1.sequence)
    (increasing : (calls.map (·.1.sequence)).Pairwise (· < ·))
    (encoder : Encoder) (slot : CanonicalEvent) :
    ∃ stream, (encoder.encodeStream sessionId calls).2 = .ok stream ∧
      (Decoder.decodeStream receiveTsNs stream stream.length {} slot 0).2 =
        .ok (calls.map fun call => carried receiveTsNs call.1, stream.length) := by
  obtain ⟨stream, encoded, counted, decodes⟩ :=
    decodeStream_encodeStream bounded sessionId sendable increasing encoder
  exact ⟨stream, encoded, decodes {} slot [] stream.length positive counted⟩

end Streams

/-- A book delta into a buffer with other bytes in it, and a heartbeat, which keeps two fields. -/
theorem stream_round_trip_pair :
    let delta : CanonicalEvent := ⟨5, 6, 1, 3, .bookDelta, .ask, 513, -20, 7, 8, 9, 10⟩
    let beat : CanonicalEvent := ⟨11, 12, 2, 3, .heartbeat, .bid, 0, 0, 0, 0, 4, 0⟩
    ∃ stream, ((Encoder.mk 0 0).encodeStream 1 [(delta, List.replicate 88 255),
      (beat, List.replicate 48 0)]).2 =
        .ok stream ∧
      (Decoder.decodeStream 0 stream stream.length {} delta 0).2 = .ok
        ([⟨5, 5, 1, 3, .bookDelta, .ask, 513, -20, 7, 8, 9, 10⟩,
          ⟨11, 11, 2, 0, .heartbeat, .bid, 0, 0, 0, 0, 0, 0⟩],
          stream.length) := by
  intro delta beat
  have sendable : ∀ call ∈ [(delta, List.replicate 88 255), (beat, List.replicate 48 (0 : UInt8))],
      Sendable call := by
    intro call listed
    rcases List.mem_cons.mp listed with rfl | listed
    · refine ⟨rfl, .inr rfl, fun sent found => ?_⟩
      cases found
      exact Nat.le_refl _
    · rcases List.mem_singleton.mp listed with rfl
      refine ⟨rfl, .inl rfl, fun sent found => ?_⟩
      cases found
      exact Nat.le_refl _
  exact stream_round_trip (by decide) 1 sendable (by decide) (by decide) ⟨0, 0⟩ delta

end VectorTick.Vtp1
