import VectorTick.Common.Crc32C
import VectorTick.Common.Types
import VectorTick.Foundation.Layout

/-! The frames of the wire protocol: header, checksum and validation. -/

set_option autoImplicit false

namespace VectorTick.Vtp1

open Foundation

/-- The message types; a header carries the byte, which need not be one of them. -/
inductive MessageType where
  | streamMetadata
  | quote
  | trade
  | bookDelta
  | status
  | heartbeat
  | endOfStream
  deriving DecidableEq, Repr

def MessageType.value : MessageType → UInt8
  | streamMetadata => 0
  | quote => 1
  | trade => 2
  | bookDelta => 3
  | status => 4
  | heartbeat => 5
  | endOfStream => 255

structure FrameHeader where
  magic : UInt32
  version : UInt8
  messageType : UInt8
  flags : UInt16
  payloadLength : UInt32
  sessionId : UInt32
  sequence : UInt64
  sendTimestampNs : UInt64
  crc32c : UInt32
  reserved : UInt32
  deriving DecidableEq, Repr

namespace FrameHeader

def size : Nat := 40

def isValidMagic (header : FrameHeader) : Bool := header.magic = Magic.vtp1

def isValidVersion (header : FrameHeader) : Bool := header.version = Version.vtp1

def isValidReserved (header : FrameHeader) : Bool := header.reserved = 0

/-- The writes of `write_header`. -/
def layout (header : FrameHeader) : Layout :=
  [ (0, be32 header.magic), (4, [header.version]),
    (5, [header.messageType]), (6, be16 header.flags),
    (8, be32 header.payloadLength), (12, be32 header.sessionId), (16, be64 header.sequence),
    (24, be64 header.sendTimestampNs), (32, be32 header.crc32c), (36, be32 header.reserved) ]

theorem layout_tiles (header : FrameHeader) : header.layout.Tiles 0 := by
  simp [layout, Layout.Tiles]

@[simp] theorem length_layout (header : FrameHeader) : header.layout.bytes.length = size := by
  simp [layout, Layout.bytes, size]

end FrameHeader

namespace Frame

def readHeader (buffer : Bytes) : FrameHeader where
  magic := be32Of (slice buffer 0 4)
  version := buffer.getD 4 0
  messageType := buffer.getD 5 0
  flags := be16Of (slice buffer 6 2)
  payloadLength := be32Of (slice buffer 8 4)
  sessionId := be32Of (slice buffer 12 4)
  sequence := be64Of (slice buffer 16 8)
  sendTimestampNs := be64Of (slice buffer 24 8)
  crc32c := be32Of (slice buffer 32 4)
  reserved := be32Of (slice buffer 36 4)

def computeCrc (header : FrameHeader) (payload : Bytes) : UInt32 :=
  let crc := Crc32C.compute { header with crc32c := 0 }.layout.bytes
  if header.payloadLength > 0 then
    Crc32C.computeFrom crc (payload.take header.payloadLength.toNat) else crc

def validate (header : FrameHeader) (payload : Bytes) (availableBytes : Nat) :
    Except Stop Unit := do
  if !header.isValidMagic then
    failWith .invalidMagic "Invalid VTP1 magic"
  if !header.isValidVersion then
    failWith .invalidVersion "Unsupported VTP1 version"
  if !header.isValidReserved then
    failWith .reservedFieldNotZero "Reserved field not zero"
  if header.payloadLength.toNat > Limits.maxPayloadLength then
    failWith .invalidLength "Payload too large"
  if availableBytes < FrameHeader.size + header.payloadLength.toNat then
    failWith .truncatedFrame "Frame truncated"
  if header.messageType > MessageType.heartbeat.value ∧
    header.messageType ≠ MessageType.endOfStream.value then
    failWith .invalidMessageType "Unknown message type"
  if computeCrc header payload ≠ header.crc32c then
    failWith .invalidChecksum "CRC32C mismatch"

def readFrame (buffer : Bytes) : Option (FrameHeader × Bytes × Nat) :=
  if buffer.length < FrameHeader.size then none
  else
    let header := readHeader buffer
    let totalSize := FrameHeader.size + header.payloadLength.toNat
    if buffer.length < totalSize then
      none else some (header, buffer.drop FrameHeader.size, totalSize)

/-- `write_frame` with the payload already in place behind the header: it is read for the checksum
and then copied onto itself. -/
def writeFrame (buffer : Bytes) (type : MessageType) (flags : UInt16) (sessionId : UInt32)
    (sequence timestamp : UInt64) (payloadLength : UInt32) : Except Stop Bytes := do
  let payload ← loadFrom buffer FrameHeader.size payloadLength.toNat
  let header : FrameHeader := {
    magic := Magic.vtp1
    version := Version.vtp1
    messageType := type.value
    flags, payloadLength, sessionId, sequence
    sendTimestampNs := timestamp
    crc32c := 0
    reserved := 0 }
  let header := { header with crc32c := computeCrc header payload }
  let buffer ← header.layout.writeTo .fault 0 buffer
  storeTo buffer FrameHeader.size payload

/-- `write_frame` with a payload that lies elsewhere. -/
def writeFrameFrom (buffer : Bytes) (type : MessageType) (flags : UInt16) (sessionId : UInt32)
    (sequence timestamp : UInt64) (payload : Bytes) : Except Stop Bytes := do
  let header : FrameHeader := {
    magic := Magic.vtp1
    version := Version.vtp1
    messageType := type.value
    flags
    payloadLength := UInt32.ofNat payload.length
    sessionId, sequence
    sendTimestampNs := timestamp
    crc32c := 0
    reserved := 0 }
  let header := { header with crc32c := computeCrc header payload }
  let buffer ← header.layout.writeTo .fault 0 buffer
  storeTo buffer FrameHeader.size payload

theorem writeFrame_eq_from (buffer : Bytes) (type : MessageType)
    (flags : UInt16) (sessionId : UInt32)
    (sequence timestamp : UInt64) (payloadLength : UInt32)
    (inside : FrameHeader.size + payloadLength.toNat ≤ buffer.length) :
    writeFrame buffer type flags sessionId sequence timestamp payloadLength =
      writeFrameFrom buffer type flags sessionId sequence timestamp
        (slice buffer FrameHeader.size payloadLength.toNat) := by
  have length : UInt32.ofNat (slice buffer FrameHeader.size payloadLength.toNat).length =
      payloadLength := by
    rw [length_slice inside, UInt32.ofNat_toNat]
  unfold writeFrame writeFrameFrom
  rw [loadFrom, load_inside _ inside, ok_bind, length]

end Frame

end VectorTick.Vtp1
