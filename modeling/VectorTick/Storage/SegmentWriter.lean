import VectorTick.Codec.BitPack
import VectorTick.Codec.Rle
import VectorTick.Memory.AlignedBuffer
import VectorTick.Storage.FileFormat

/-! The segment writer: column buffers, statistics, column encoders and `write_to_file`.

Every write into the output buffer goes through `storeTo`, whether or not the source checks it
first, so an unchecked write past the end shows up as a fault. The buffer comes from the
allocator uninitialised, and the padding between blocks keeps whatever it held.
-/

set_option autoImplicit false

namespace VectorTick

open Foundation Codec Vts1

structure SegmentWriter where
  segmentId : UInt64
  maxRows : Nat
  rowCount : Nat
  exchangeTsNs : List UInt64
  receiveTsNs : List UInt64
  sequences : List UInt64
  instrumentIds : List UInt32
  eventTypes : List UInt8
  sides : List UInt8
  flags : List UInt16
  priceTicks : List Int64
  quantities : List UInt32
  venueIds : List UInt16
  sourceIds : List UInt16
  tradeOrOrderIds : List UInt64
  minTimestamp : UInt64
  maxTimestamp : UInt64
  minSequence : UInt64
  maxSequence : UInt64
  minInstrumentId : UInt64
  maxInstrumentId : UInt64
  minPrice : Int64
  maxPrice : Int64
  minQuantity : UInt32
  maxQuantity : UInt32
  deriving DecidableEq, Repr

namespace SegmentWriter

def rowBytes : Nat := 56

def new (segmentId : UInt64) (maxRows : Nat) : Except Stop SegmentWriter :=
  if 2 ^ 63 ≤ rowBytes * maxRows then .error .terminate
  else .ok {
    segmentId, maxRows, rowCount := 0
    exchangeTsNs := [], receiveTsNs := [], sequences := [], instrumentIds :=
      [], eventTypes := [], sides := []
    flags := [], priceTicks := [], quantities := [], venueIds := [], sourceIds :=
      [], tradeOrOrderIds := []
    minTimestamp := 0xFFFFFFFFFFFFFFFF, maxTimestamp := 0
    minSequence := 0xFFFFFFFFFFFFFFFF, maxSequence := 0
    minInstrumentId := 0xFFFFFFFFFFFFFFFF, maxInstrumentId := 0
    minPrice := Int64.maxValue, maxPrice := Int64.minValue
    minQuantity := 0xFFFFFFFF, maxQuantity := 0 }

def isFull (writer : SegmentWriter) : Bool := writer.maxRows ≤ writer.rowCount

def updateStatistics (writer : SegmentWriter) (event : CanonicalEvent) : SegmentWriter :=
  { writer with
    minTimestamp :=
      if event.exchangeTsNs < writer.minTimestamp then event.exchangeTsNs else writer.minTimestamp
    maxTimestamp :=
      if event.exchangeTsNs > writer.maxTimestamp then event.exchangeTsNs else writer.maxTimestamp
    minSequence :=
      if event.sequence < writer.minSequence then event.sequence else writer.minSequence
    maxSequence :=
      if event.sequence > writer.maxSequence then event.sequence else writer.maxSequence
    minInstrumentId :=
      if event.instrumentId.toUInt64 < writer.minInstrumentId then event.instrumentId.toUInt64
      else writer.minInstrumentId
    maxInstrumentId :=
      if event.instrumentId.toUInt64 > writer.maxInstrumentId then event.instrumentId.toUInt64
      else writer.maxInstrumentId
    minPrice := if event.priceTicks < writer.minPrice then event.priceTicks else writer.minPrice
    maxPrice := if event.priceTicks > writer.maxPrice then event.priceTicks else writer.maxPrice
    minQuantity :=
      if event.quantity < writer.minQuantity then event.quantity else writer.minQuantity
    maxQuantity :=
      if event.quantity > writer.maxQuantity then event.quantity else writer.maxQuantity }

/-- The twelve `push_back`s. -/
def pushRow (writer : SegmentWriter) (event : CanonicalEvent) : SegmentWriter :=
  { writer with
    exchangeTsNs := writer.exchangeTsNs ++ [event.exchangeTsNs]
    receiveTsNs := writer.receiveTsNs ++ [event.receiveTsNs]
    sequences := writer.sequences ++ [event.sequence]
    instrumentIds := writer.instrumentIds ++ [event.instrumentId]
    eventTypes := writer.eventTypes ++ [event.eventType.value]
    sides := writer.sides ++ [event.side.value]
    flags := writer.flags ++ [event.flags]
    priceTicks := writer.priceTicks ++ [event.priceTicks]
    quantities := writer.quantities ++ [event.quantity]
    venueIds := writer.venueIds ++ [event.venueId]
    sourceIds := writer.sourceIds ++ [event.sourceId]
    tradeOrOrderIds := writer.tradeOrOrderIds ++ [event.tradeOrOrderId] }

def addEvent (writer : SegmentWriter) (event : CanonicalEvent) : Except Stop SegmentWriter := do
  if writer.isFull then
    failWith .limitExceeded "Segment is full"
  Event.validate event
  let writer := (writer.pushRow event).updateStatistics event
  return { writer with rowCount := writer.rowCount + 1 }

/-- `add_event` on each event in turn, up to the first that is refused. -/
def addEvents (writer : SegmentWriter) : List CanonicalEvent → Except Stop SegmentWriter
  | [] => .ok writer
  | event :: rest => do
    let writer ← writer.addEvent event
    writer.addEvents rest

def encodeRaw {T : Type} (element : Element T) (message : String) (values : List T) (output : Bytes)
    (offset outputSize : Nat) : Except Stop (Bytes × Nat) := do
  let bytes := values.length * element.size
  if offset + bytes > outputSize then
    failWith .bufferTooSmall message
  let output ← storeTo output offset (element.putMany values)
  return (output, offset + bytes)

def encodeDeltas (message : String) (outputSize : Nat) : List UInt64 → Bytes → Nat →
    Except Stop (Bytes × Nat)
  | [], output, offset => .ok (output, offset)
  | delta :: rest, output, offset => do
    let stored := VarIntU.encode delta (outputSize - offset)
    let output ← storeTo output offset stored.bytes
    if stored.size = 0 then
      failWith .bufferTooSmall message
    encodeDeltas message outputSize rest output (offset + stored.size)

def encodeDelta (message : String) (first : UInt64) (deltas : List UInt64) (output : Bytes)
    (offset outputSize : Nat) :
    Except Stop (Bytes × Nat) := do
  if offset + 8 > outputSize then
    failWith .bufferTooSmall "Buffer too small"
  let output ← storeTo output offset (u64 first)
  encodeDeltas message outputSize deltas output (offset + 8)

/-- `values[i] - values[i-1]` for each `i` from one on. -/
def differences {T : Type} [Sub T] : List T → List T
  | previous :: next :: rest => (next - previous) :: differences (next :: rest)
  | _ => []

def encodeColumnU64 (values : List UInt64) (encoding : EncodingType) (output : Bytes)
    (offset outputSize : Nat) :
    Except Stop (Bytes × Nat) :=
  match values with
  | [] => .ok (output, offset)
  | first :: _ =>
    if encoding = .delta then
      encodeDelta "Buffer too small for delta" first (differences values) output offset outputSize
    else encodeRaw .word64 "Buffer too small for column" values output offset outputSize

def encodeColumnI64 (values : List Int64) (encoding : EncodingType) (output : Bytes)
    (offset outputSize : Nat) :
    Except Stop (Bytes × Nat) :=
  match values with
  | [] => .ok (output, offset)
  | first :: _ =>
    if encoding = .delta then
      encodeDelta "Buffer too small" first.toUInt64
        ((differences values).map ZigZag.encode) output offset outputSize
    else encodeRaw .signed64 "Buffer too small" values output offset outputSize

/-- `*std::min_element` and `*std::max_element` of a nonempty vector. -/
def minElement (first : UInt32) (rest : List UInt32) : UInt32 := rest.foldl min first

def maxElement (first : UInt32) (rest : List UInt32) : UInt32 := rest.foldl max first

def encodeBitPacked (first : UInt32) (rest : List UInt32) (output : Bytes)
    (offset outputSize : Nat) :
    Except Stop (Bytes × Nat) := do
  let minVal := minElement first rest
  let maxVal := maxElement first rest
  if offset + 4 > outputSize then
    failWith .bufferTooSmall "Buffer too small"
  let output ← storeTo output offset (u32 minVal)
  let offset := offset + 4
  let bits := BitPackU32.bitsRequired (maxVal - minVal)
  if offset + 1 > outputSize then
    failWith .bufferTooSmall "Buffer too small"
  let output ← storeTo output offset [UInt8.ofNat bits]
  let offset := offset + 1
  let packed := (first :: rest).map fun value => value - minVal
  if offset + BitPackU32.maxEncodedSize packed.length bits > outputSize then
    failWith .bufferTooSmall "Buffer too small"
  let stored := BitPackU32.encode packed bits (outputSize - offset)
  let output ← storeTo output offset stored.bytes
  return (output, offset + stored.size)

def encodeColumnU32 (values : List UInt32) (encoding : EncodingType) (output : Bytes)
    (offset outputSize : Nat) :
    Except Stop (Bytes × Nat) :=
  match values with
  | [] => .ok (output, offset)
  | first :: rest =>
    if encoding = .bitPacked then encodeBitPacked first rest output offset outputSize
    else encodeRaw .word32 "Buffer too small" values output offset outputSize

def encodeColumnU16 (values : List UInt16) (encoding : EncodingType) (output : Bytes)
    (offset outputSize : Nat) :
    Except Stop (Bytes × Nat) :=
  if values = [] then .ok (output, offset)
  else if encoding = .raw then
    encodeRaw .word16 "Buffer too small for u16 raw column" values output offset outputSize
  else encodeColumnU32 (values.map UInt16.toUInt32) encoding output offset outputSize

def encodeColumnU8 (values : List UInt8) (encoding : EncodingType) (output : Bytes)
    (offset outputSize : Nat) :
    Except Stop (Bytes × Nat) :=
  if values = [] then .ok (output, offset)
  else if encoding = .rle then do
    let stored := RLE.encode Element.byte values (outputSize - offset)
    let output ← storeTo output offset stored.bytes
    -- A failed run-length encoding is written over by the raw values, under the same descriptor.
    if stored.size = 0 then encodeRaw .byte "Buffer too small" values output offset outputSize
    else return (output, offset + stored.size)
  else encodeRaw .byte "Buffer too small" values output offset outputSize

def estimatedSize (writer : SegmentWriter) : Nat :=
  SegmentHeader.size + ColumnDescriptor.size * columnCount + writer.rowCount * rowBytes / 2 +
    ZoneMap.size * columnCount + 1024 + SegmentFooter.size

/-- `(offset + 63) & ~63`. -/
def align64 (offset : Nat) : Nat := (offset + 63) / 64 * 64

/-- One of the twelve column blocks of `write_to_file`. -/
structure ColumnPlan where
  column : ColumnID
  encoding : EncodingType
  encode : Bytes → Nat → Nat → Except Stop (Bytes × Nat)
  valueSize : Nat
  minValue : UInt64
  maxValue : UInt64

def columnPlans (writer : SegmentWriter) : List ColumnPlan :=
  [ ⟨.exchangeTsNs, .delta, encodeColumnU64 writer.exchangeTsNs .delta, 8,
    writer.minTimestamp, writer.maxTimestamp⟩,
    ⟨.receiveTsNs, .delta, encodeColumnU64 writer.receiveTsNs .delta, 8, 0, 0⟩,
    ⟨.sequence, .delta, encodeColumnU64 writer.sequences .delta, 8,
      writer.minSequence, writer.maxSequence⟩,
    ⟨.instrumentId, .bitPacked, encodeColumnU32 writer.instrumentIds .bitPacked,
      4, writer.minInstrumentId,
      writer.maxInstrumentId⟩,
    ⟨.eventType, .rle, encodeColumnU8 writer.eventTypes .rle, 1, 0, 0⟩,
    ⟨.side, .rle, encodeColumnU8 writer.sides .rle, 1, 0, 0⟩,
    ⟨.flags, .bitPacked, encodeColumnU16 writer.flags .bitPacked, 2, 0, 0⟩,
    ⟨.priceTicks, .delta, encodeColumnI64 writer.priceTicks .delta, 8, writer.minPrice.toUInt64,
      writer.maxPrice.toUInt64⟩,
    ⟨.quantity, .bitPacked, encodeColumnU32 writer.quantities .bitPacked, 4,
      writer.minQuantity.toUInt64,
      writer.maxQuantity.toUInt64⟩,
    ⟨.venueId, .raw, encodeColumnU16 writer.venueIds .raw, 2, 0, 0⟩,
    ⟨.sourceId, .raw, encodeColumnU16 writer.sourceIds .raw, 2, 0, 0⟩,
    ⟨.tradeOrOrderId, .raw, encodeColumnU64 writer.tradeOrOrderIds .raw, 8, 0, 0⟩ ]

def ColumnPlan.descriptor (plan : ColumnPlan) (rowCount start stop : Nat) : ColumnDescriptor where
  columnId := UInt32.ofNat plan.column.index
  type := getColumnType plan.column
  encoding := plan.encoding
  bitsPerValue := 0
  reserved1 := 0
  offset := UInt64.ofNat start
  compressedSize := UInt64.ofNat (stop - start)
  uncompressedSize := UInt64.ofNat (rowCount * plan.valueSize)
  minValue := plan.minValue
  maxValue := plan.maxValue
  nullCount := 0
  dataCrc := 0
  reserved2 := 0
  descriptorCrc := 0

def encodeColumns (rowCount outputSize : Nat) :
    List ColumnPlan → Bytes → Nat → Except Stop (Bytes × Nat × List ColumnDescriptor)
  | [], output, offset => .ok (output, offset, [])
  | plan :: rest, output, offset => do
    let (output, stop) ← plan.encode output offset outputSize
    let desc := plan.descriptor rowCount offset stop
    let (output, last, descriptors) ← encodeColumns rowCount outputSize rest output stop
    return (output, last, desc :: descriptors)

/-- A run of `memcpy`s, each right after the one before. -/
def storeEach : List Bytes → Bytes → Nat → Except Stop (Bytes × Nat)
  | [], output, offset => .ok (output, offset)
  | block :: rest, output, offset => do
    let output ← storeTo output offset block
    storeEach rest output (offset + block.length)

def zoneMap (rowCount : Nat) (desc : ColumnDescriptor) : ZoneMap where
  minValue := desc.minValue
  maxValue := desc.maxValue
  sumValue := 0
  rowCount := UInt32.ofNat rowCount
  nullCount := 0
  firstRowIdx := 0
  lastRowIdx := UInt32.ofNat (rowCount - 1)
  reserved := Vector.replicate 24 0

def bloomBit (params : BloomFilterParams) (instrumentId : UInt32) (h : Nat) : Nat :=
  (instrumentId.toUInt64 * 14695981039346656037 + UInt64.ofNat (h * h)).toNat % params.numBits

def setBit (filter : Bytes) (bit : Nat) : Bytes :=
  filter.modify (bit / 8) (· ||| (1 <<< UInt8.ofNat (bit % 8)))

def bloomFilter (params : BloomFilterParams) (instrumentIds : List UInt32) : Bytes :=
  instrumentIds.foldl (fun filter instrumentId =>
    (List.range params.numHashes).foldl
      (fun filter h => setBit filter (bloomBit params instrumentId h)) filter)
    (List.replicate params.sizeBytes 0)

def sealDescriptors (data : Bytes) : List ColumnDescriptor → Except Stop (List ColumnDescriptor)
  | [] => .ok []
  | desc :: rest => do
    let block ← loadFrom data desc.offset.toNat desc.compressedSize.toNat
    let desc := { desc with dataCrc := Crc32C.compute block }.withChecksum
    let rest ← sealDescriptors data rest
    return desc :: rest

def segmentDigest (descriptors : List ColumnDescriptor) : UInt64 :=
  descriptors.foldl (fun digest desc => hashCombine digest desc.dataCrc.toUInt64) 0

def header (writer : SegmentWriter)
    (zoneMapOffset bloomFilterOffset bloomFilterSize footerOffset : Nat) :
    SegmentHeader where
  magic := Magic.vts1
  version := Version.vts1
  schemaHash := computeCanonicalSchemaHash
  segmentId := writer.segmentId
  rowCount := UInt64.ofNat writer.rowCount
  minTimestamp := writer.minTimestamp
  maxTimestamp := writer.maxTimestamp
  descriptorOffset := UInt32.ofNat SegmentHeader.size
  descriptorSize := UInt32.ofNat (ColumnDescriptor.size * columnCount)
  zoneMapOffset := UInt32.ofNat zoneMapOffset
  bloomFilterOffset := UInt32.ofNat bloomFilterOffset
  bloomFilterSize := UInt32.ofNat bloomFilterSize
  footerOffset := UInt32.ofNat footerOffset
  reserved := Vector.replicate 52 0
  headerCrc := 0

def footer (writer : SegmentWriter) (footerOffset : Nat) (tableHash : UInt32) (digest : UInt64) :
    SegmentFooter where
  magic := Magic.vts1
  version := Version.vts1
  totalSize := UInt64.ofNat (footerOffset + SegmentFooter.size)
  descriptorTableHash := tableHash.toUInt64
  segmentDigest := digest
  commitMarker := SegmentFooter.committedMarker
  createTimestamp := 0
  minSequence := writer.minSequence
  maxSequence := writer.maxSequence
  rowCount := UInt32.ofNat writer.rowCount
  columnCount := UInt32.ofNat columnCount
  reserved := Vector.replicate 52 0
  footerCrc := 0

/-- Everything behind the columns, and then the tables in front of them. None of these writes
is checked against the size of the buffer. -/
def writeTail (writer : SegmentWriter) (data : Bytes) (offset : Nat)
    (descriptors : List ColumnDescriptor) :
    Except Stop Bytes := do
  let zoneMapOffset := align64 offset
  let (data, offset) ← storeEach
    (descriptors.map fun desc => (zoneMap writer.rowCount desc).toBytes) data zoneMapOffset
  let bloomFilterOffset := align64 offset
  let params := BloomFilterParams.forItems writer.rowCount
  let data ← storeTo data bloomFilterOffset (bloomFilter params writer.instrumentIds)
  let footerOffset := align64 (bloomFilterOffset + params.sizeBytes)
  let descriptors ← sealDescriptors data descriptors
  let data ← storeTo data SegmentHeader.size (descriptors.flatMap ColumnDescriptor.toBytes)
  let table ← loadFrom data SegmentHeader.size (descriptors.length * ColumnDescriptor.size)
  let header := writer.header zoneMapOffset bloomFilterOffset params.sizeBytes footerOffset
  let data ← storeTo data 0 header.withChecksum.toBytes
  let footer := writer.footer footerOffset (Crc32C.compute table) (segmentDigest descriptors)
  let data ← storeTo data footerOffset footer.withChecksum.toBytes
  loadFrom data 0 (footerOffset + SegmentFooter.size)

/-- The bytes handed to `file::write_all`. -/
def writeToFile (writer : SegmentWriter) (memory : Allocator) : Except Stop Bytes := do
  if writer.rowCount = 0 then
    failWith .invalidArgument "Cannot write empty segment"
  let estimated := writer.estimatedSize * 2
  let buffer ← AlignedBuffer.allocate memory estimated
  let start := align64 (SegmentHeader.size + ColumnDescriptor.size * columnCount)
  let (data, offset, descriptors) ← encodeColumns writer.rowCount estimated
    writer.columnPlans buffer.data start
  writer.writeTail data offset descriptors

end SegmentWriter

end VectorTick
