import VectorTick.Common.Status

/-! The canonical event and its validation.

`EventType` and `Side` are enumerations with a fixed `u8` underlying type: every byte is a
value of them, named or not, and a byte read from a file is cast without a check. They are
therefore modelled by their underlying byte.
-/

set_option autoImplicit false

namespace VectorTick

structure EventType where
  value : UInt8
  deriving DecidableEq, Repr

namespace EventType
def quote : EventType := ⟨0⟩
def trade : EventType := ⟨1⟩
def bookDelta : EventType := ⟨2⟩
def status : EventType := ⟨3⟩
def heartbeat : EventType := ⟨4⟩
def invalid : EventType := ⟨255⟩
end EventType

structure Side where
  value : UInt8
  deriving DecidableEq, Repr

namespace Side
def bid : Side := ⟨0⟩
def ask : Side := ⟨1⟩
def invalid : Side := ⟨255⟩
end Side

structure CanonicalEvent where
  exchangeTsNs : UInt64
  receiveTsNs : UInt64
  sequence : UInt64
  instrumentId : UInt32
  eventType : EventType
  side : Side
  flags : UInt16
  priceTicks : Int64
  quantity : UInt32
  venueId : UInt16
  sourceId : UInt16
  tradeOrOrderId : UInt64
  deriving DecidableEq, Repr

namespace SegmentConfig
def maxRowsPerSegment : Nat := 1048576
end SegmentConfig

namespace Magic
def vtp1 : UInt32 := 0x56545031
def vts1 : UInt32 := 0x56545331
end Magic

namespace Version
def vtp1 : UInt8 := 1
def vts1 : UInt32 := 1
end Version

namespace Limits
def maxPayloadLength : Nat := 65535
def maxInstruments : UInt32 := 16384
def maxVenues : UInt16 := 256
def maxSources : UInt16 := 256
def maxTimestamp : UInt64 := 2534023007990000000
def maxPrice : Int64 := 1000000000000
def maxQuantity : UInt32 := 1000000000
end Limits

namespace Event

/-- `event::validate`. A heartbeat may carry any side byte. -/
def validate (evt : CanonicalEvent) : Except Stop Unit := do
  if evt.eventType.value > EventType.heartbeat.value then
    failWith .invalidPayload "Invalid event type"
  if evt.eventType ≠ EventType.heartbeat ∧ evt.side.value > Side.ask.value then
    failWith .invalidPayload "Invalid side"
  if evt.exchangeTsNs > Limits.maxTimestamp then
    failWith .invalidTimestamp "Exchange timestamp out of range"
  if evt.receiveTsNs > Limits.maxTimestamp then
    failWith .invalidTimestamp "Receive timestamp out of range"
  if evt.instrumentId ≥ Limits.maxInstruments then
    failWith .invalidPayload "Instrument ID out of range"
  if evt.priceTicks < -Limits.maxPrice ∨ evt.priceTicks > Limits.maxPrice then
    failWith .invalidPayload "Price out of range"
  if evt.quantity > Limits.maxQuantity then
    failWith .invalidPayload "Quantity out of range"
  if evt.venueId ≥ Limits.maxVenues then
    failWith .invalidPayload "Venue ID out of range"
  if evt.sourceId ≥ Limits.maxSources then
    failWith .invalidPayload "Source ID out of range"

theorem validate_answers (evt : CanonicalEvent) : Answers (validate evt) := by
  unfold validate
  repeat refine .guard fun _ => ?_
  exact answers_ok ()

/-- What an accepted event satisfies, as one record of bounds. -/
structure Valid (evt : CanonicalEvent) : Prop where
  eventType : evt.eventType.value ≤ EventType.heartbeat.value
  side : evt.eventType = EventType.heartbeat ∨ evt.side.value ≤ Side.ask.value
  exchangeTs : evt.exchangeTsNs ≤ Limits.maxTimestamp
  receiveTs : evt.receiveTsNs ≤ Limits.maxTimestamp
  instrument : evt.instrumentId < Limits.maxInstruments
  priceLow : -Limits.maxPrice ≤ evt.priceTicks
  priceHigh : evt.priceTicks ≤ Limits.maxPrice
  quantity : evt.quantity ≤ Limits.maxQuantity
  venue : evt.venueId < Limits.maxVenues
  source : evt.sourceId < Limits.maxSources

theorem valid_of_validate {evt : CanonicalEvent} (accepted : validate evt = .ok ()) :
    Valid evt := by
  unfold validate failWith at accepted
  simp only [bind, Except.bind, pure, Except.pure] at accepted
  repeat' split at accepted
  all_goals first | (cases accepted; done) | skip
  constructor <;> grind

theorem validate_of_valid {evt : CanonicalEvent} (valid : Valid evt) : validate evt = .ok () := by
  have type := UInt8.not_lt.mpr valid.eventType
  have side : ¬ (evt.eventType ≠ EventType.heartbeat ∧ evt.side.value > Side.ask.value) := by
    rintro ⟨other, high⟩
    exact valid.side.elim other fun low => UInt8.not_lt.mpr low high
  have price : ¬ (evt.priceTicks < -Limits.maxPrice ∨ evt.priceTicks > Limits.maxPrice) := by
    rintro (low | high)
    · exact Int64.not_lt.mpr valid.priceLow low
    · exact Int64.not_lt.mpr valid.priceHigh high
  unfold validate
  rw [if_neg type, if_neg side, if_neg (UInt64.not_lt.mpr valid.exchangeTs),
    if_neg (UInt64.not_lt.mpr valid.receiveTs), if_neg (UInt32.not_le.mpr valid.instrument),
    if_neg price, if_neg (UInt32.not_lt.mpr valid.quantity), if_neg (UInt16.not_le.mpr valid.venue),
    if_neg (UInt16.not_le.mpr valid.source)]
  rfl

end Event

end VectorTick
