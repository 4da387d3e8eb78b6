import VectorTick.Protocol.Messages

/-! The decoder, which turns frames into events, and the encoder, which does the reverse. -/

set_option autoImplicit false

namespace VectorTick.Vtp1

open Foundation

structure Decoder where
  lastSessionId : UInt32 := 0
  lastSequence : UInt64 := 0
  framesDecoded : UInt64 := 0
  decodeErrors : UInt64 := 0
  deriving DecidableEq, Repr

namespace Decoder

-- Each of these fills in the event it was given and then says whether the event is a valid one.
-- An event that is not stays as it was filled in.

def decodeQuote (payload : Bytes) (len : UInt32) (event : CanonicalEvent) :
    CanonicalEvent × Except Stop Unit :=
  if len.toNat < QuotePayload.size then (event, failWith .invalidPayload "Quote payload too small")
  else
    let quote := QuotePayload.readFrom payload
    let event := { event with
      exchangeTsNs := quote.exchangeTsNs
      instrumentId := quote.instrumentId
      eventType := .quote
      flags := 0
      venueId := 0
      sourceId := 0
      tradeOrOrderId := 0 }
    let event :=
      if Side.mk quote.side = .ask then
        { event with
          side := .ask, priceTicks := quote.askPriceTicks, quantity := quote.askQuantity }
      else { event with
        side := .bid, priceTicks := quote.bidPriceTicks, quantity := quote.bidQuantity }
    (event, Event.validate event)

def decodeTrade (payload : Bytes) (len : UInt32) (event : CanonicalEvent) :
    CanonicalEvent × Except Stop Unit :=
  if len.toNat < TradePayload.size then (event, failWith .invalidPayload "Trade payload too small")
  else
    let trade := TradePayload.readFrom payload
    let event := { event with
      exchangeTsNs := trade.exchangeTsNs
      instrumentId := trade.instrumentId
      eventType := .trade
      side := ⟨trade.side⟩
      flags := 0
      priceTicks := trade.priceTicks
      quantity := trade.quantity
      venueId := trade.venueId
      sourceId := trade.sourceId
      tradeOrOrderId := trade.tradeId }
    (event, Event.validate event)

def decodeBookDelta (payload : Bytes) (len : UInt32) (event : CanonicalEvent) :
    CanonicalEvent × Except Stop Unit :=
  if len.toNat < BookDeltaPayload.size then
    (event, failWith .invalidPayload "BookDelta payload too small")
  else
    let delta := BookDeltaPayload.readFrom payload
    let event := { event with
      exchangeTsNs := delta.exchangeTsNs
      instrumentId := delta.instrumentId
      eventType := .bookDelta
      side := ⟨delta.side⟩
      -- The message has 32 bits of flags, the event the lower 16 of them.
      flags := delta.flags.toUInt16
      priceTicks := delta.priceTicks
      quantity := delta.quantity
      venueId := delta.venueId
      sourceId := delta.sourceId
      tradeOrOrderId := delta.orderId }
    (event, Event.validate event)

def decodeStatus (payload : Bytes) (len : UInt32) (event : CanonicalEvent) :
    CanonicalEvent × Except Stop Unit :=
  if len.toNat < StatusPayload.size then
    (event, failWith .invalidPayload "Status payload too small")
  else
    let status := StatusPayload.readFrom payload
    let event := { event with
      exchangeTsNs := status.exchangeTsNs
      instrumentId := status.instrumentId
      eventType := .status
      side := .bid
      flags := (status.status.toUInt16 <<< 8) ||| status.reason.toUInt16
      priceTicks := 0
      quantity := 0
      venueId := 0
      sourceId := 0
      tradeOrOrderId := 0 }
    (event, Event.validate event)

def decodeHeartbeat (payload : Bytes) (len : UInt32) (event : CanonicalEvent) :
    CanonicalEvent × Except Stop Unit :=
  if len.toNat < HeartbeatPayload.size then
    (event, failWith .invalidPayload "Heartbeat payload too small")
  else
    let heartbeat := HeartbeatPayload.readFrom payload
    ({ event with
      exchangeTsNs := heartbeat.exchangeTsNs
      instrumentId := 0
      eventType := .heartbeat
      side := .bid
      flags := 0
      priceTicks := 0
      quantity := 0
      venueId := 0
      sourceId := 0
      tradeOrOrderId := 0 }, .ok ())

def decodePayload (messageType : UInt8) (payload : Bytes) (len : UInt32) (event : CanonicalEvent) :
    CanonicalEvent × Except Stop Unit :=
  if messageType = MessageType.quote.value then decodeQuote payload len event
  else if messageType = MessageType.trade.value then decodeTrade payload len event
  else if messageType = MessageType.bookDelta.value then decodeBookDelta payload len event
  else if messageType = MessageType.status.value then decodeStatus payload len event
  else if messageType = MessageType.heartbeat.value then decodeHeartbeat payload len event
  else (event, failWith .invalidMessageType "Unknown message type")

def isControl (messageType : UInt8) : Bool :=
  messageType = MessageType.streamMetadata.value || messageType = MessageType.endOfStream.value

def failed (decoder : Decoder) : Decoder :=
  { decoder with decodeErrors := decoder.decodeErrors + 1 }

def counted (decoder : Decoder) : Decoder :=
  { decoder with framesDecoded := decoder.framesDecoded + 1 }

/-- `decode_frame` on the bytes from `data` on: the decoder and the event afterwards, and the
number of bytes consumed. -/
def decodeFrame (decoder : Decoder) (data : Bytes) (event : CanonicalEvent) (receiveTsNs : UInt64) :
    Decoder × CanonicalEvent × Except Stop Nat :=
  match Frame.readFrame data with
  | none => (decoder, event, failWith .truncatedFrame "Frame too small")
  | some (header, payload, consumed) =>
    match Frame.validate header payload data.length with
    | .error stop => (decoder.failed, event, .error stop)
    | .ok () =>
      if header.sequence ≤ decoder.lastSequence ∧ !isControl header.messageType then
        (decoder.failed, event, failWith .sequenceNotMonotonic "Sequence not monotonic")
      else
        let decoder :=
          { decoder with lastSessionId := header.sessionId, lastSequence := header.sequence }
        let event := { event with
          receiveTsNs := if receiveTsNs > 0 then receiveTsNs else header.sendTimestampNs
          sequence := header.sequence }
        if isControl header.messageType then (decoder.counted, event, .ok consumed)
        else
          match decodePayload header.messageType payload header.payloadLength event with
          | (event, .error stop) => (decoder.failed, event, .error stop)
          | (event, .ok ()) => (decoder.counted, event, .ok consumed)

/-- Decode frame after frame at the running offset, into one event variable. The events decoded and
the offset reached are returned; `fuel` bounds the number of frames. -/
def decodeStream (receiveTsNs : UInt64) (data : Bytes) :
    Nat → Decoder → CanonicalEvent → Nat → Decoder × Except Stop (List CanonicalEvent × Nat)
  | 0, decoder, _, offset => (decoder, .ok ([], offset))
  | fuel + 1, decoder, event, offset =>
    if offset < data.length then
      match decoder.decodeFrame (data.drop offset) event receiveTsNs with
      | (decoder, _, .error stop) => (decoder, .error stop)
      | (decoder, event, .ok consumed) =>
        match decodeStream receiveTsNs data fuel decoder event (offset + consumed) with
        | (decoder, .error stop) => (decoder, .error stop)
        | (decoder, .ok (events, reached)) => (decoder, .ok (event :: events, reached))
    else (decoder, .ok ([], offset))

end Decoder

structure Encoder where
  framesEncoded : UInt64 := 0
  encodeErrors : UInt64 := 0
  deriving DecidableEq, Repr

namespace Encoder

def quotePayload (event : CanonicalEvent) : QuotePayload where
  exchangeTsNs := event.exchangeTsNs
  instrumentId := event.instrumentId
  side := event.side.value
  reserved := #v[0, 0, 0]
  bidPriceTicks := if event.side = .ask then 0 else event.priceTicks
  bidQuantity := if event.side = .ask then 0 else event.quantity
  askPriceTicks := if event.side = .ask then event.priceTicks else 0
  askQuantity := if event.side = .ask then event.quantity else 0

def tradePayload (event : CanonicalEvent) : TradePayload where
  exchangeTsNs := event.exchangeTsNs
  instrumentId := event.instrumentId
  side := event.side.value
  reserved := #v[0, 0, 0]
  priceTicks := event.priceTicks
  quantity := event.quantity
  tradeId := event.tradeOrOrderId
  venueId := event.venueId
  sourceId := event.sourceId

def bookDeltaPayload (event : CanonicalEvent) : BookDeltaPayload where
  exchangeTsNs := event.exchangeTsNs
  instrumentId := event.instrumentId
  side := event.side.value
  level := 0
  operation := 1
  reserved := 0
  priceTicks := event.priceTicks
  quantity := event.quantity
  orderId := event.tradeOrOrderId
  venueId := event.venueId
  sourceId := event.sourceId
  flags := event.flags.toUInt32

def statusPayload (event : CanonicalEvent) : StatusPayload where
  exchangeTsNs := event.exchangeTsNs
  instrumentId := event.instrumentId
  status := (event.flags >>> 8).toUInt8
  reason := (event.flags &&& 0xFF).toUInt8
  reserved := 0

/-- What is sent for an event: the message, the size of its payload and the writes into it. -/
structure Message where
  type : MessageType
  payloadSize : Nat
  payload : Layout

def message (event : CanonicalEvent) : Option Message :=
  if event.eventType = .quote then some ⟨.quote, QuotePayload.size, (quotePayload event).layout⟩
  else if event.eventType = .trade then
    some ⟨.trade, TradePayload.size, (tradePayload event).layout⟩
  else if event.eventType = .bookDelta then
    some ⟨.bookDelta, BookDeltaPayload.size, (bookDeltaPayload event).layout⟩
  else if event.eventType = .status then
    some ⟨.status, StatusPayload.size, (statusPayload event).layout⟩
  else if event.eventType = .heartbeat then
    some ⟨.heartbeat, HeartbeatPayload.size, (HeartbeatPayload.mk event.exchangeTsNs).layout⟩
  else none

def failed (encoder : Encoder) : Encoder :=
  { encoder with encodeErrors := encoder.encodeErrors + 1 }

def counted (encoder : Encoder) : Encoder :=
  { encoder with framesEncoded := encoder.framesEncoded + 1 }

/-- `encode_event`: the buffer afterwards and the number of bytes of the frame in it. -/
def encodeEvent (encoder : Encoder) (event : CanonicalEvent) (buffer : Bytes) (sessionId : UInt32) :
    Encoder × Except Stop (Bytes × Nat) :=
  match message event with
  | none => (encoder.failed, failWith .invalidMessageType "Cannot encode event type")
  | some message =>
    let totalSize := FrameHeader.size + message.payloadSize
    if buffer.length < totalSize then
      (encoder.failed, failWith .bufferTooSmall "Buffer too small for frame")
    else
      (encoder.counted, do
        let buffer ← message.payload.writeTo .fault FrameHeader.size buffer
        let buffer ← Frame.writeFrame buffer message.type 0 sessionId
          event.sequence event.exchangeTsNs
          (UInt32.ofNat message.payloadSize)
        return (buffer, totalSize))

/-- Encode event after event, each into a buffer of the caller's, and concatenate the frames. -/
def encodeStream (sessionId : UInt32) : Encoder → List (CanonicalEvent × Bytes) →
    Encoder × Except Stop Bytes
  | encoder, [] => (encoder, .ok [])
  | encoder, (event, buffer) :: rest =>
    match encoder.encodeEvent event buffer sessionId with
    | (encoder, .error stop) => (encoder, .error stop)
    | (encoder, .ok (buffer, size)) =>
      match encodeStream sessionId encoder rest with
      | (encoder, .error stop) => (encoder, .error stop)
      | (encoder, .ok frames) => (encoder, .ok (buffer.take size ++ frames))

end Encoder

end VectorTick.Vtp1
