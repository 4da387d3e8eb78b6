import VectorTick.Protocol.Frame

/-! The payloads of the market messages, written and read at fixed offsets. -/

set_option autoImplicit false

namespace VectorTick.Vtp1

open Foundation

structure QuotePayload where
  exchangeTsNs : UInt64
  instrumentId : UInt32
  side : UInt8
  reserved : Vector UInt8 3
  bidPriceTicks : Int64
  bidQuantity : UInt32
  askPriceTicks : Int64
  askQuantity : UInt32

namespace QuotePayload

def size : Nat := 40

def readFrom (buffer : Bytes) : QuotePayload where
  exchangeTsNs := be64Of (slice buffer 0 8)
  instrumentId := be32Of (slice buffer 8 4)
  side := buffer.getD 12 0
  reserved := #v[buffer.getD 13 0, buffer.getD 14 0, buffer.getD 15 0]
  bidPriceTicks := (be64Of (slice buffer 16 8)).toInt64
  bidQuantity := be32Of (slice buffer 24 4)
  askPriceTicks := (be64Of (slice buffer 28 8)).toInt64
  askQuantity := be32Of (slice buffer 36 4)

/-- The writes of `write_to`. -/
def layout (quote : QuotePayload) : Layout :=
  [ (0, be64 quote.exchangeTsNs), (8, be32 quote.instrumentId), (12, [quote.side]),
    (13, [quote.reserved[0]]),
    (14, [quote.reserved[1]]), (15, [quote.reserved[2]]), (16, be64 quote.bidPriceTicks.toUInt64),
    (24, be32 quote.bidQuantity), (28, be64 quote.askPriceTicks.toUInt64),
      (36, be32 quote.askQuantity) ]

end QuotePayload

structure TradePayload where
  exchangeTsNs : UInt64
  instrumentId : UInt32
  side : UInt8
  reserved : Vector UInt8 3
  priceTicks : Int64
  quantity : UInt32
  tradeId : UInt64
  venueId : UInt16
  sourceId : UInt16

namespace TradePayload

def size : Nat := 40

def readFrom (buffer : Bytes) : TradePayload where
  exchangeTsNs := be64Of (slice buffer 0 8)
  instrumentId := be32Of (slice buffer 8 4)
  side := buffer.getD 12 0
  reserved := #v[buffer.getD 13 0, buffer.getD 14 0, buffer.getD 15 0]
  priceTicks := (be64Of (slice buffer 16 8)).toInt64
  quantity := be32Of (slice buffer 24 4)
  tradeId := be64Of (slice buffer 28 8)
  venueId := be16Of (slice buffer 36 2)
  sourceId := be16Of (slice buffer 38 2)

def layout (trade : TradePayload) : Layout :=
  [ (0, be64 trade.exchangeTsNs), (8, be32 trade.instrumentId), (12, [trade.side]),
    (13, [trade.reserved[0]]),
    (14, [trade.reserved[1]]), (15, [trade.reserved[2]]), (16, be64 trade.priceTicks.toUInt64),
    (24, be32 trade.quantity), (28, be64 trade.tradeId), (36, be16 trade.venueId),
      (38, be16 trade.sourceId) ]

end TradePayload

structure BookDeltaPayload where
  exchangeTsNs : UInt64
  instrumentId : UInt32
  side : UInt8
  level : UInt8
  operation : UInt8
  reserved : UInt8
  priceTicks : Int64
  quantity : UInt32
  orderId : UInt64
  venueId : UInt16
  sourceId : UInt16
  flags : UInt32

namespace BookDeltaPayload

/-- Four bytes more than `write_to` writes. -/
def size : Nat := 48

def readFrom (buffer : Bytes) : BookDeltaPayload where
  exchangeTsNs := be64Of (slice buffer 0 8)
  instrumentId := be32Of (slice buffer 8 4)
  side := buffer.getD 12 0
  level := buffer.getD 13 0
  operation := buffer.getD 14 0
  reserved := buffer.getD 15 0
  priceTicks := (be64Of (slice buffer 16 8)).toInt64
  quantity := be32Of (slice buffer 24 4)
  orderId := be64Of (slice buffer 28 8)
  venueId := be16Of (slice buffer 36 2)
  sourceId := be16Of (slice buffer 38 2)
  flags := be32Of (slice buffer 40 4)

def layout (delta : BookDeltaPayload) : Layout :=
  [ (0, be64 delta.exchangeTsNs), (8, be32 delta.instrumentId),
    (12, [delta.side]), (13, [delta.level]),
    (14, [delta.operation]), (15, [delta.reserved]), (16, be64 delta.priceTicks.toUInt64),
      (24, be32 delta.quantity),
    (28, be64 delta.orderId), (36, be16 delta.venueId), (38, be16 delta.sourceId),
      (40, be32 delta.flags) ]

end BookDeltaPayload

structure StatusPayload where
  exchangeTsNs : UInt64
  instrumentId : UInt32
  status : UInt8
  reason : UInt8
  reserved : UInt16

namespace StatusPayload

def size : Nat := 16

def readFrom (buffer : Bytes) : StatusPayload where
  exchangeTsNs := be64Of (slice buffer 0 8)
  instrumentId := be32Of (slice buffer 8 4)
  status := buffer.getD 12 0
  reason := buffer.getD 13 0
  reserved := be16Of (slice buffer 14 2)

def layout (status : StatusPayload) : Layout :=
  [ (0, be64 status.exchangeTsNs), (8, be32 status.instrumentId),
    (12, [status.status]), (13, [status.reason]),
    (14, be16 status.reserved) ]

end StatusPayload

structure HeartbeatPayload where
  exchangeTsNs : UInt64

namespace HeartbeatPayload

def size : Nat := 8

def readFrom (buffer : Bytes) : HeartbeatPayload where
  exchangeTsNs := be64Of (slice buffer 0 8)

def layout (heartbeat : HeartbeatPayload) : Layout := [ (0, be64 heartbeat.exchangeTsNs) ]

end HeartbeatPayload

end VectorTick.Vtp1
