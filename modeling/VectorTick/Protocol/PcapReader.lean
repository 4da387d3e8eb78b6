import VectorTick.Common.Status
import VectorTick.Foundation.Layout

/-! The reader of capture files: the global header, the packet records, and the layers of a packet
down to the payload.

A layer parser that meets something it is not for returns OK and leaves the offset where it was,
and the next layer is parsed from there. The packet is a span of the mapped file, and so is the
payload that is exposed: both are their bytes here, and a layer reads the bytes of the packet only.
-/

set_option autoImplicit false

namespace VectorTick.Pcap

open Foundation

structure LinkType where
  value : UInt32
  deriving DecidableEq, Repr

namespace LinkType
def null : LinkType := ⟨0⟩
def ethernet : LinkType := ⟨1⟩
def loopback : LinkType := ⟨108⟩
end LinkType

namespace GlobalHeader
def size : Nat := 24
def magicLE : UInt32 := 0xA1B2C3D4
def magicLENs : UInt32 := 0xA1B23C4D
def magicBE : UInt32 := 0xD4C3B2A1
def magicBENs : UInt32 := 0x4D3CB2A1
end GlobalHeader

structure PacketHeader where
  tsSec : UInt32
  tsUsec : UInt32
  inclLen : UInt32
  origLen : UInt32
  deriving DecidableEq, Repr

def PacketHeader.size : Nat := 16

namespace Ethernet
def headerSize : Nat := 14
def etherTypeIPv4 : UInt16 := 0x0800
def etherTypeVLAN : UInt16 := 0x8100
def etherTypeVLANOuter : UInt16 := 0x88A8
end Ethernet

namespace IPv4Header
def minSize : Nat := 20
def protocolUDP : UInt8 := 17
def flagMF : UInt16 := 0x2000
def fragmentMask : UInt16 := 0x1FFF

def version (first : UInt8) : UInt8 := (first >>> 4) &&& 0x0F

/-- The length of the header in bytes, from the lower half of the first byte. -/
def ihl (first : UInt8) : Nat := ((first &&& 0x0F) * 4).toNat

def isFragmented (flagsFragment : UInt16) : Bool :=
  flagsFragment &&& flagMF ≠ 0 || flagsFragment &&& fragmentMask ≠ 0
end IPv4Header

def UDPHeader.size : Nat := 8

structure PcapReader where
  mapping : Option Bytes := none
  offset : Nat := 0
  isBigEndian : Bool := false
  isNanosecondTs : Bool := false
  snaplen : UInt32 := 0
  linkType : LinkType := .ethernet
  packetTsNs : UInt64 := 0
  packet : Bytes := []
  vtp1Payload : Option Bytes := none
  packetsRead : UInt64 := 0
  vtp1FramesFound : UInt64 := 0
  parseErrors : UInt64 := 0
  deriving DecidableEq, Repr

/-- `is_big_endian_ ? read_be_u32(..) : read_le_u32(..)`. -/
def word32 (big : Bool) (bytes : Bytes) : UInt32 := if big then be32Of bytes else u32Of bytes

def word16 (big : Bool) (bytes : Bytes) : UInt16 := if big then be16Of bytes else u16Of bytes

/-- `read_be_u16` inside the packet. -/
def readBeU16 (data : Bytes) (offset : Nat) : Except Stop UInt16 := do
  let bytes ← loadFrom data offset 2
  return be16Of bytes

def readByte (data : Bytes) (offset : Nat) : Except Stop UInt8 := do
  let bytes ← loadFrom data offset 1
  return bytes.headD 0

/-- The end of `parse_ethernet`, at the header whose EtherType is the last one. -/
def skipEthernet (etherType : UInt16) (offset : Nat) : Nat :=
  if etherType ≠ Ethernet.etherTypeIPv4 then offset else offset + Ethernet.headerSize

/-- Each VLAN tag moves the offset on by four bytes. -/
def parseEthernet (data : Bytes) (offset : Nat) : Except Stop Nat := do
  if offset + Ethernet.headerSize > data.length then
    failWith .pcapTruncatedRecord "Truncated Ethernet header"
  let etherType ← readBeU16 data (offset + 12)
  if etherType = Ethernet.etherTypeVLAN ∨ etherType = Ethernet.etherTypeVLANOuter then
    let offset := offset + 4
    if offset + Ethernet.headerSize > data.length then
      failWith .pcapTruncatedRecord "Truncated VLAN header"
    let etherType ← readBeU16 data (offset + 12)
    if etherType = Ethernet.etherTypeVLAN then
      let offset := offset + 4
      if offset + Ethernet.headerSize > data.length then
        failWith .pcapTruncatedRecord "Truncated inner VLAN header"
      let etherType ← readBeU16 data (offset + 12)
      return skipEthernet etherType offset
    else return skipEthernet etherType offset
  else return skipEthernet etherType offset

def parseIPv4 (data : Bytes) (offset : Nat) : Except Stop Nat := do
  if offset + IPv4Header.minSize > data.length then
    failWith .pcapInvalidIPv4Header "Truncated IPv4 header"
  let first ← readByte data offset
  if IPv4Header.version first ≠ 4 then
    failWith .pcapInvalidIPv4Header "Not IPv4"
  let ihl := IPv4Header.ihl first
  if ihl < IPv4Header.minSize then
    failWith .pcapInvalidIPv4Header "Invalid IPv4 IHL"
  if offset + ihl > data.length then
    failWith .pcapInvalidIPv4Header "Truncated IPv4 options"
  let flagsFragment ← readBeU16 data (offset + 6)
  if IPv4Header.isFragmented flagsFragment then
    failWith .pcapFragmentedPacket "Fragmented IPv4 packet"
  let protocol ← readByte data (offset + 9)
  -- Another protocol is skipped without moving the offset.
  if protocol ≠ IPv4Header.protocolUDP then
    return offset
  let totalLen ← readBeU16 data (offset + 2)
  if totalLen.toNat < ihl + UDPHeader.size then
    failWith .pcapInvalidIPv4Header "IPv4 total length too small"
  return offset + ihl

/-- The payload size set here is overwritten with the rest of the packet right after. -/
def parseUdp (data : Bytes) (offset : Nat) : Except Stop Nat := do
  if offset + UDPHeader.size > data.length then
    failWith .pcapInvalidUDPHeader "Truncated UDP header"
  let udpLen ← readBeU16 data (offset + 4)
  if udpLen.toNat < UDPHeader.size then
    failWith .pcapInvalidUDPHeader "Invalid UDP length"
  if offset + udpLen.toNat > data.length then
    failWith .pcapInvalidUDPHeader "Truncated UDP payload"
  return offset + UDPHeader.size

def parseLink (linkType : LinkType) (data : Bytes) : Except Stop Nat :=
  if linkType = .null ∨ linkType = .loopback then
    if data.length < 4 then
      failWith .pcapTruncatedRecord "Truncated null/loopback header" else .ok 4
  else parseEthernet data 0

/-- Where `parse_vtp1` is called, if it is. -/
def payloadStart (linkType : LinkType) (data : Bytes) : Except Stop Nat := do
  let offset ← parseLink linkType data
  let offset ← parseIPv4 data offset
  parseUdp data offset

namespace PcapReader

def parseVtp1 (reader : PcapReader) (data : Bytes) : PcapReader :=
  { reader with vtp1Payload := some data, vtp1FramesFound := reader.vtp1FramesFound + 1 }

def parsePacket (reader : PcapReader) : PcapReader × Except Stop Unit :=
  match payloadStart reader.linkType reader.packet with
  | .error stop => (reader, .error stop)
  | .ok offset => (reader.parseVtp1 (reader.packet.drop offset), .ok ())

/-- The byte order and the clock that a magic number stands for. -/
def byMagic (magic : UInt32) : Option (Bool × Bool) :=
  if magic = GlobalHeader.magicLE then some (false, false)
  else if magic = GlobalHeader.magicLENs then some (false, true)
  else if magic = GlobalHeader.magicBE then some (true, false)
  else if magic = GlobalHeader.magicBENs then some (true, true)
  else none

def parseGlobalHeader (reader : PcapReader) (file : Bytes) : PcapReader × Except Stop Unit :=
  if file.length < GlobalHeader.size then
    (reader, failWith .pcapInvalidHeader "File too small for PCAP header")
  else
    match loadFrom file 0 GlobalHeader.size with
    | .error stop => (reader, .error stop)
    | .ok data =>
      match byMagic (u32Of (slice data 0 4)) with
      | none => (reader, failWith .pcapInvalidHeader "Invalid PCAP magic number")
      | some (isBigEndian, isNanosecondTs) =>
        let reader := { reader with isBigEndian, isNanosecondTs }
        if word16 isBigEndian (slice data 4 2) ≠ 2 then
          (reader, failWith .pcapInvalidHeader "Unsupported PCAP version")
        else
          let linkType : LinkType := ⟨word32 isBigEndian (slice data 20 4)⟩
          let reader := { reader with snaplen := word32 isBigEndian (slice data 16 4), linkType }
          if linkType ≠ .ethernet ∧ linkType ≠ .null ∧ linkType ≠ .loopback then
            (reader, failWith .pcapUnsupportedLinkType "Unsupported link type")
          else ({ reader with offset := GlobalHeader.size }, .ok ())

/-- `open` on a path: `found` is the file there, if any. An empty file cannot be mapped. -/
def openFile (reader : PcapReader) (found : Option Bytes) : PcapReader × Except Stop Unit :=
  match found with
  | none => (reader, failWith .fileOpenFailed "Failed to open file for reading")
  | some file =>
    if file = [] then (reader, failWith .mmapFailed "Failed to map file")
    else { reader with mapping := some file, offset := 0 }.parseGlobalHeader file

def packetHeader (big : Bool) (data : Bytes) : PacketHeader where
  tsSec := word32 big (slice data 0 4)
  tsUsec := word32 big (slice data 4 4)
  inclLen := word32 big (slice data 8 4)
  origLen := word32 big (slice data 12 4)

def timestamp (nanosecond : Bool) (header : PacketHeader) : UInt64 :=
  header.tsSec.toUInt64 * 1000000000 +
    if nanosecond then header.tsUsec.toUInt64 else header.tsUsec.toUInt64 * 1000

def startPacket (reader : PcapReader) (packetTsNs : UInt64) (packet : Bytes) : PcapReader :=
  { reader with packetTsNs, packet, vtp1Payload := none }

def finishPacket (reader : PcapReader) (consumed : Nat) : PcapReader :=
  { reader with offset := reader.offset + consumed, packetsRead := reader.packetsRead + 1 }

/-- A packet that was captured in full: its layers are parsed, and the reader moves on whether or
not they are right. -/
def readPacket (reader : PcapReader) (header : PacketHeader) (packet : Bytes) :
    PcapReader × Except Stop Nat :=
  let consumed := PacketHeader.size + header.inclLen.toNat
  match (reader.startPacket (timestamp reader.isNanosecondTs header) packet).parsePacket with
  | (reader, .ok ()) => (reader.finishPacket consumed, .ok consumed)
  | (reader, .error (.status _)) =>
    ({ reader with parseErrors := reader.parseErrors + 1 }.finishPacket consumed, .ok consumed)
  | (reader, .error stop) => (reader, .error stop)

/-- `read_next`: the bytes consumed, zero at the end of the file. -/
def readNext (reader : PcapReader) : PcapReader × Except Stop Nat :=
  match reader.mapping with
  | none => (reader, failWith .fileNotFound "No file open")
  | some file =>
    if reader.offset ≥ file.length then (reader, .ok 0)
    else if reader.offset + PacketHeader.size > file.length then
      (reader, failWith .pcapTruncatedRecord "Truncated packet header")
    else
      match loadFrom file reader.offset PacketHeader.size with
      | .error stop => (reader, .error stop)
      | .ok data =>
        let header := packetHeader reader.isBigEndian data
        if header.inclLen > reader.snaplen ∨
            header.inclLen.toNat > file.length - reader.offset - PacketHeader.size then
          (reader, failWith .pcapTruncatedRecord "Packet length exceeds snaplen or file size")
        else if header.inclLen = 0 then
          (reader, failWith .pcapTruncatedRecord "Zero-length packet")
        else
          reader.readPacket header
            (slice file (reader.offset + PacketHeader.size) header.inclLen.toNat)

end PcapReader

end VectorTick.Pcap
