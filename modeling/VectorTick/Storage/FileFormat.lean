import VectorTick.Common.Crc32C
import VectorTick.Common.Hash
import VectorTick.Common.Types

/-! The fixed records of a segment file.

A segment file is a header, a table of column descriptors, the column blocks, one zone map per
column, a bloom filter and a footer. Records are copied between memory and file as they lie.
-/

set_option autoImplicit false

namespace VectorTick.Vts1

open Foundation

/-- A `u8` enumeration read from a file without a check, so any byte. -/
structure ColumnType where
  value : UInt8
  deriving DecidableEq, Repr

namespace ColumnType
def u64 : ColumnType := ⟨0⟩
def i64 : ColumnType := ⟨1⟩
def u32 : ColumnType := ⟨2⟩
def u16 : ColumnType := ⟨3⟩
def u8 : ColumnType := ⟨4⟩
end ColumnType

structure EncodingType where
  value : UInt8
  deriving DecidableEq, Repr

namespace EncodingType
def raw : EncodingType := ⟨0⟩
def bitPacked : EncodingType := ⟨2⟩
def delta : EncodingType := ⟨3⟩
def rle : EncodingType := ⟨5⟩
end EncodingType

inductive ColumnID where
  | exchangeTsNs
  | receiveTsNs
  | sequence
  | instrumentId
  | eventType
  | side
  | flags
  | priceTicks
  | quantity
  | venueId
  | sourceId
  | tradeOrOrderId
  deriving DecidableEq, Repr

namespace ColumnID

/-- The columns in the order of their ids. -/
def all : List ColumnID :=
  [exchangeTsNs, receiveTsNs, sequence, instrumentId, eventType, side, flags, priceTicks,
    quantity, venueId, sourceId,
    tradeOrOrderId]

def index : ColumnID → Nat
  | exchangeTsNs => 0
  | receiveTsNs => 1
  | sequence => 2
  | instrumentId => 3
  | eventType => 4
  | side => 5
  | flags => 6
  | priceTicks => 7
  | quantity => 8
  | venueId => 9
  | sourceId => 10
  | tradeOrOrderId => 11

end ColumnID

def columnCount : Nat := 12

def getColumnType : ColumnID → ColumnType
  | .exchangeTsNs | .receiveTsNs | .sequence | .tradeOrOrderId => .u64
  | .instrumentId | .quantity => .u32
  | .eventType | .side => .u8
  | .flags | .venueId | .sourceId => .u16
  | .priceTicks => .i64

def getColumnName : ColumnID → String
  | .exchangeTsNs => "exchange_ts_ns"
  | .receiveTsNs => "receive_ts_ns"
  | .sequence => "sequence"
  | .instrumentId => "instrument_id"
  | .eventType => "event_type"
  | .side => "side"
  | .flags => "flags"
  | .priceTicks => "price_ticks"
  | .quantity => "quantity"
  | .venueId => "venue_id"
  | .sourceId => "source_id"
  | .tradeOrOrderId => "trade_or_order_id"

/-- The characters of an ASCII name. -/
def nameBytes (name : String) : Bytes := name.toList.map fun c => UInt8.ofNat c.toNat

def computeCanonicalSchemaHash : UInt64 :=
  ColumnID.all.foldl (fun hash column =>
    let hash := FnvHash.update hash (Foundation.u32 (UInt32.ofNat column.index))
    let hash := FnvHash.update hash (nameBytes (getColumnName column))
    FnvHash.update hash [(getColumnType column).value]) FnvHash.initial

structure SegmentHeader where
  magic : UInt32
  version : UInt32
  schemaHash : UInt64
  segmentId : UInt64
  rowCount : UInt64
  minTimestamp : UInt64
  maxTimestamp : UInt64
  descriptorOffset : UInt32
  descriptorSize : UInt32
  zoneMapOffset : UInt32
  bloomFilterOffset : UInt32
  bloomFilterSize : UInt32
  footerOffset : UInt32
  reserved : Vector UInt8 52
  headerCrc : UInt32
  deriving DecidableEq

namespace SegmentHeader

def size : Nat := 128

def toBytes (header : SegmentHeader) : Bytes :=
  u32 header.magic ++ (u32 header.version ++ (u64 header.schemaHash ++ (u64 header.segmentId ++
    (u64 header.rowCount ++
      (u64 header.minTimestamp ++ (u64 header.maxTimestamp ++ (u32 header.descriptorOffset ++
    (u32 header.descriptorSize ++ (u32 header.zoneMapOffset ++ (u32 header.bloomFilterOffset ++
    (u32 header.bloomFilterSize ++ (u32 header.footerOffset ++ (header.reserved.toList ++
    u32 header.headerCrc)))))))))))))

def ofBytes (raw : Bytes) : SegmentHeader :=
  let (magic, ahead) := pop32 raw
  let (version, ahead) := pop32 ahead
  let (schemaHash, ahead) := pop64 ahead
  let (segmentId, ahead) := pop64 ahead
  let (rowCount, ahead) := pop64 ahead
  let (minTimestamp, ahead) := pop64 ahead
  let (maxTimestamp, ahead) := pop64 ahead
  let (descriptorOffset, ahead) := pop32 ahead
  let (descriptorSize, ahead) := pop32 ahead
  let (zoneMapOffset, ahead) := pop32 ahead
  let (bloomFilterOffset, ahead) := pop32 ahead
  let (bloomFilterSize, ahead) := pop32 ahead
  let (footerOffset, ahead) := pop32 ahead
  let (reserved, ahead) := popBlock 52 ahead
  { magic, version, schemaHash, segmentId, rowCount, minTimestamp, maxTimestamp,
    descriptorOffset, descriptorSize,
    zoneMapOffset, bloomFilterOffset, bloomFilterSize, footerOffset, reserved, headerCrc :=
      (pop32 ahead).1 }

def isValidMagic (header : SegmentHeader) : Bool := header.magic = Magic.vts1

def isValidVersion (header : SegmentHeader) : Bool := header.version = Version.vts1

/-- The checksum of the whole record, taken with its own field at zero. -/
def checksum (header : SegmentHeader) : UInt32 :=
  Crc32C.compute { header with headerCrc := 0 }.toBytes

def withChecksum (header : SegmentHeader) : SegmentHeader :=
  { header with headerCrc := header.checksum }

@[simp] theorem length_toBytes (header : SegmentHeader) : header.toBytes.length = size := by
  simp [toBytes, size]

theorem ofBytes_toBytes (header : SegmentHeader) : ofBytes header.toBytes = header := by
  have last := pop32_append header.headerCrc []
  rw [List.append_nil] at last
  simp only [ofBytes, toBytes, pop32_append, pop64_append, popBlock_append, last]

end SegmentHeader

structure ColumnDescriptor where
  columnId : UInt32
  type : ColumnType
  encoding : EncodingType
  bitsPerValue : UInt8
  reserved1 : UInt8
  offset : UInt64
  compressedSize : UInt64
  uncompressedSize : UInt64
  minValue : UInt64
  maxValue : UInt64
  nullCount : UInt32
  dataCrc : UInt32
  reserved2 : UInt32
  descriptorCrc : UInt32
  deriving DecidableEq, Repr

namespace ColumnDescriptor

def size : Nat := 64

/-- All fields but the checksum, which is the last. -/
def bodyBytes (desc : ColumnDescriptor) : Bytes :=
  u32 desc.columnId ++
    (desc.type.value :: desc.encoding.value :: desc.bitsPerValue :: desc.reserved1 ::
    (u64 desc.offset ++
      (u64 desc.compressedSize ++ (u64 desc.uncompressedSize ++ (u64 desc.minValue ++
    (u64 desc.maxValue ++ (u32 desc.nullCount ++ (u32 desc.dataCrc ++ u32 desc.reserved2))))))))

def toBytes (desc : ColumnDescriptor) : Bytes := desc.bodyBytes ++ u32 desc.descriptorCrc

def ofBytes (raw : Bytes) : ColumnDescriptor :=
  let (columnId, ahead) := pop32 raw
  let (type, ahead) := pop8 ahead
  let (encoding, ahead) := pop8 ahead
  let (bitsPerValue, ahead) := pop8 ahead
  let (reserved1, ahead) := pop8 ahead
  let (offset, ahead) := pop64 ahead
  let (compressedSize, ahead) := pop64 ahead
  let (uncompressedSize, ahead) := pop64 ahead
  let (minValue, ahead) := pop64 ahead
  let (maxValue, ahead) := pop64 ahead
  let (nullCount, ahead) := pop32 ahead
  let (dataCrc, ahead) := pop32 ahead
  let (reserved2, ahead) := pop32 ahead
  { columnId, type := ⟨type⟩, encoding := ⟨encoding⟩, bitsPerValue,
    reserved1, offset, compressedSize,
    uncompressedSize, minValue, maxValue, nullCount, dataCrc, reserved2, descriptorCrc :=
      (pop32 ahead).1 }

/-- The checksum covers `Size - sizeof(u32)` bytes, which leaves its own field out. -/
def checksum (desc : ColumnDescriptor) : UInt32 := Crc32C.compute (desc.toBytes.take (size - 4))

def withChecksum (desc : ColumnDescriptor) : ColumnDescriptor :=
  { desc with descriptorCrc := desc.checksum }

/-- The copy a reader checks: `temp.descriptor_crc = 0`. -/
def cleared (desc : ColumnDescriptor) : ColumnDescriptor := { desc with descriptorCrc := 0 }

@[simp] theorem length_bodyBytes (desc : ColumnDescriptor) : desc.bodyBytes.length = 60 := by
  simp [bodyBytes]

@[simp] theorem length_toBytes (desc : ColumnDescriptor) : desc.toBytes.length = size := by
  simp [toBytes, size]

theorem checksum_eq (desc : ColumnDescriptor) : desc.checksum = Crc32C.compute desc.bodyBytes := by
  rw [checksum, toBytes,
    List.take_left' (show desc.bodyBytes.length = size - 4 from length_bodyBytes desc)]

/-- The field that holds the checksum does not enter the checksum. -/
theorem checksum_update (desc : ColumnDescriptor) (crc : UInt32) :
    { desc with descriptorCrc := crc }.checksum = desc.checksum := by
  rw [checksum_eq, checksum_eq]
  rfl

theorem checksum_cleared (desc : ColumnDescriptor) : desc.cleared.checksum = desc.checksum :=
  desc.checksum_update 0

theorem checksum_withChecksum (desc : ColumnDescriptor) :
    desc.withChecksum.checksum = desc.checksum :=
  desc.checksum_update desc.checksum

theorem ofBytes_toBytes (desc : ColumnDescriptor) : ofBytes desc.toBytes = desc := by
  have last := pop32_append desc.descriptorCrc []
  rw [List.append_nil] at last
  simp only [ofBytes, toBytes, bodyBytes, List.append_assoc, List.cons_append, pop32_append,
    pop64_append, pop8_cons, last]

end ColumnDescriptor

structure ZoneMap where
  minValue : UInt64
  maxValue : UInt64
  sumValue : UInt64
  rowCount : UInt32
  nullCount : UInt32
  firstRowIdx : UInt32
  lastRowIdx : UInt32
  reserved : Vector UInt8 24
  deriving DecidableEq

namespace ZoneMap

def size : Nat := 64

def toBytes (zone : ZoneMap) : Bytes :=
  u64 zone.minValue ++
    (u64 zone.maxValue ++ (u64 zone.sumValue ++ (u32 zone.rowCount ++ (u32 zone.nullCount ++
    (u32 zone.firstRowIdx ++ (u32 zone.lastRowIdx ++ zone.reserved.toList))))))

def ofBytes (raw : Bytes) : ZoneMap :=
  let (minValue, ahead) := pop64 raw
  let (maxValue, ahead) := pop64 ahead
  let (sumValue, ahead) := pop64 ahead
  let (rowCount, ahead) := pop32 ahead
  let (nullCount, ahead) := pop32 ahead
  let (firstRowIdx, ahead) := pop32 ahead
  let (lastRowIdx, ahead) := pop32 ahead
  { minValue, maxValue, sumValue, rowCount, nullCount, firstRowIdx, lastRowIdx,
    reserved := (popBlock 24 ahead).1 }

@[simp] theorem length_toBytes (zone : ZoneMap) : zone.toBytes.length = size := by
  simp [toBytes, size]

theorem ofBytes_toBytes (zone : ZoneMap) : ofBytes zone.toBytes = zone := by
  have last := popBlock_append zone.reserved []
  rw [List.append_nil] at last
  simp only [ofBytes, toBytes, pop32_append, pop64_append, last]

end ZoneMap

structure SegmentFooter where
  magic : UInt32
  version : UInt32
  totalSize : UInt64
  descriptorTableHash : UInt64
  segmentDigest : UInt64
  commitMarker : UInt64
  createTimestamp : UInt64
  minSequence : UInt64
  maxSequence : UInt64
  rowCount : UInt32
  columnCount : UInt32
  reserved : Vector UInt8 52
  footerCrc : UInt32
  deriving DecidableEq

namespace SegmentFooter

def size : Nat := 128

def committedMarker : UInt64 := 0xDEADBEEFCAFEBABE

def bodyBytes (footer : SegmentFooter) : Bytes :=
  u32 footer.magic ++
    (u32 footer.version ++ (u64 footer.totalSize ++ (u64 footer.descriptorTableHash ++
    (u64 footer.segmentDigest ++
      (u64 footer.commitMarker ++ (u64 footer.createTimestamp ++ (u64 footer.minSequence ++
    (u64 footer.maxSequence ++
      (u32 footer.rowCount ++ (u32 footer.columnCount ++ footer.reserved.toList))))))))))

def toBytes (footer : SegmentFooter) : Bytes := footer.bodyBytes ++ u32 footer.footerCrc

def ofBytes (raw : Bytes) : SegmentFooter :=
  let (magic, ahead) := pop32 raw
  let (version, ahead) := pop32 ahead
  let (totalSize, ahead) := pop64 ahead
  let (descriptorTableHash, ahead) := pop64 ahead
  let (segmentDigest, ahead) := pop64 ahead
  let (commitMarker, ahead) := pop64 ahead
  let (createTimestamp, ahead) := pop64 ahead
  let (minSequence, ahead) := pop64 ahead
  let (maxSequence, ahead) := pop64 ahead
  let (rowCount, ahead) := pop32 ahead
  let (columnCount, ahead) := pop32 ahead
  let (reserved, ahead) := popBlock 52 ahead
  { magic, version, totalSize, descriptorTableHash, segmentDigest, commitMarker,
    createTimestamp, minSequence,
    maxSequence, rowCount, columnCount, reserved, footerCrc := (pop32 ahead).1 }

def checksum (footer : SegmentFooter) : UInt32 := Crc32C.compute (footer.toBytes.take (size - 4))

def withChecksum (footer : SegmentFooter) : SegmentFooter :=
  { footer with footerCrc := footer.checksum }

def cleared (footer : SegmentFooter) : SegmentFooter := { footer with footerCrc := 0 }

@[simp] theorem length_bodyBytes (footer : SegmentFooter) : footer.bodyBytes.length = 124 := by
  simp [bodyBytes]

@[simp] theorem length_toBytes (footer : SegmentFooter) : footer.toBytes.length = size := by
  simp [toBytes, size]

theorem checksum_eq (footer : SegmentFooter) :
    footer.checksum = Crc32C.compute footer.bodyBytes := by
  rw [checksum, toBytes,
    List.take_left' (show footer.bodyBytes.length = size - 4 from length_bodyBytes footer)]

theorem checksum_update (footer : SegmentFooter) (crc : UInt32) :
    { footer with footerCrc := crc }.checksum = footer.checksum := by
  rw [checksum_eq, checksum_eq]
  rfl

theorem checksum_cleared (footer : SegmentFooter) : footer.cleared.checksum = footer.checksum :=
  footer.checksum_update 0

theorem checksum_withChecksum (footer : SegmentFooter) :
    footer.withChecksum.checksum = footer.checksum :=
  footer.checksum_update footer.checksum

theorem ofBytes_toBytes (footer : SegmentFooter) : ofBytes footer.toBytes = footer := by
  have last := pop32_append footer.footerCrc []
  rw [List.append_nil] at last
  simp only [ofBytes, toBytes, bodyBytes, List.append_assoc, pop32_append,
    pop64_append, popBlock_append, last]

end SegmentFooter

/-- `while (bits < num_bits) bits <<= 1`; `fuel` bounds the doublings. -/
def roundUpBits (numBits : Nat) : Nat → Nat → Nat
  | 0, bits => bits
  | fuel + 1, bits => if bits < numBits then roundUpBits numBits fuel (bits * 2) else bits

structure BloomFilterParams where
  numBits : Nat
  numHashes : Nat
  sizeBytes : Nat
  deriving DecidableEq, Repr

namespace BloomFilterParams

def defaultBitsPerItem : Nat := 10

def defaultNumHashes : Nat := 7

def forItems (numItems : Nat) : BloomFilterParams :=
  let bits := roundUpBits (numItems * defaultBitsPerItem) 64 1
  ⟨bits, defaultNumHashes, bits / 8⟩

end BloomFilterParams

end VectorTick.Vts1
