import VectorTick.Codec.BitPack
import VectorTick.Codec.Rle
import VectorTick.Storage.FileFormat

/-! The segment reader: opening, validating and decoding a file.

The mapping is the byte string of the file. Reads from it go through `loadFrom` and writes into
the column buffers through `storeTo`; a decoder is handed every byte of the file behind its
pointer together with the size the source passes, which is `usize` arithmetic and may wrap.
-/

set_option autoImplicit false

namespace VectorTick

open Foundation Codec Vts1

structure SegmentReader where
  file : Bytes
  header : SegmentHeader
  descriptors : List ColumnDescriptor
  zoneMaps : List ZoneMap
  bloomFilter : Bytes

namespace SegmentReader

def rowCount (reader : SegmentReader) : Nat := reader.header.rowCount.toNat

/-- The accessor returns `u32`, which keeps the low half of the stored hash. -/
def schemaHash (reader : SegmentReader) : UInt32 := reader.header.schemaHash.toUInt32

def readHeader (file : Bytes) : Except Stop SegmentHeader := do
  if file.length < SegmentHeader.size then
    failWith .segmentInvalidHeader "File too small for header"
  let raw ← loadFrom file 0 SegmentHeader.size
  let header := SegmentHeader.ofBytes raw
  if !header.isValidMagic then
    failWith .segmentInvalidHeader "Invalid VTS1 magic"
  if !header.isValidVersion then
    failWith .segmentInvalidHeader "Unsupported VTS1 version"
  if header.checksum ≠ header.headerCrc then
    failWith .segmentChecksumFailed "Header CRC mismatch"
  if header.schemaHash ≠ computeCanonicalSchemaHash then
    failWith .segmentSchemaMismatch "VTS1 schema hash mismatch"
  return header

def readDescriptors (file : Bytes) : Nat → Nat → Except Stop (List ColumnDescriptor)
  | 0, _ => .ok []
  | left + 1, offset => do
    if offset + ColumnDescriptor.size > file.length then
      failWith .segmentInvalidBlock "Descriptor out of bounds"
    let raw ← loadFrom file offset ColumnDescriptor.size
    let desc := ColumnDescriptor.ofBytes raw
    if desc.cleared.checksum ≠ desc.descriptorCrc then
      failWith .segmentChecksumFailed "Descriptor CRC mismatch"
    let rest ← readDescriptors file left (offset + ColumnDescriptor.size)
    return desc :: rest

def readZoneMaps (file : Bytes) : Nat → Nat → Except Stop (List ZoneMap)
  | 0, _ => .ok []
  | left + 1, offset => do
    if offset + ZoneMap.size > file.length then
      failWith .segmentInvalidBlock "Zone map out of bounds"
    let raw ← loadFrom file offset ZoneMap.size
    let rest ← readZoneMaps file left (offset + ZoneMap.size)
    return ZoneMap.ofBytes raw :: rest

def readBloomFilter (file : Bytes) (header : SegmentHeader) : Except Stop Bytes :=
  if header.bloomFilterSize > 0 then
    if header.bloomFilterOffset.toNat + header.bloomFilterSize.toNat > file.length then
      failWith .segmentInvalidBlock "Bloom filter out of bounds"
    else loadFrom file header.bloomFilterOffset.toNat header.bloomFilterSize.toNat
  else .ok []

/-- `open` on a path: `found` is the file there, if any. An empty file cannot be mapped. -/
def openFile (found : Option Bytes) : Except Stop SegmentReader := do
  match found with
  | none => failWith .fileOpenFailed "Failed to open file for reading"
  | some file =>
    if file = [] then
      failWith .mmapFailed "Failed to map file"
    let header ← readHeader file
    let descriptors ← readDescriptors file columnCount header.descriptorOffset.toNat
    let zoneMaps ← readZoneMaps file columnCount header.zoneMapOffset.toNat
    let bloomFilter ← readBloomFilter file header
    return { file, header, descriptors, zoneMaps, bloomFilter }

def validateColumns (file : Bytes) : List ColumnDescriptor → Except Stop Unit
  | [] => .ok ()
  | desc :: rest => do
    if (desc.offset + desc.compressedSize).toNat > file.length then
      failWith .segmentInvalidBlock "Column offset exceeds file size"
    let block ← loadFrom file desc.offset.toNat desc.compressedSize.toNat
    if Crc32C.compute block ≠ desc.dataCrc then
      failWith .segmentChecksumFailed "Column data CRC mismatch"
    validateColumns file rest

def validateTableHash (reader : SegmentReader) (footer : SegmentFooter) : Except Stop Unit :=
  if footer.descriptorTableHash ≠ 0 then do
    let table ← loadFrom reader.file reader.header.descriptorOffset.toNat
      (reader.descriptors.length * ColumnDescriptor.size)
    if footer.descriptorTableHash ≠ (Crc32C.compute table).toUInt64 then
      failWith .segmentChecksumFailed "Descriptor table hash mismatch"
    else .ok ()
  else .ok ()

def validateDigest (reader : SegmentReader) (footer : SegmentFooter) : Except Stop Unit :=
  if footer.segmentDigest ≠ 0 then
    if footer.segmentDigest ≠
        reader.descriptors.foldl
          (fun digest desc => hashCombine digest desc.dataCrc.toUInt64) 0 then
      failWith .segmentChecksumFailed "Segment digest mismatch"
    else .ok ()
  else .ok ()

def validateFooter (reader : SegmentReader) : Except Stop Unit := do
  let raw ← loadFrom reader.file reader.header.footerOffset.toNat SegmentFooter.size
  let footer := SegmentFooter.ofBytes raw
  if footer.commitMarker ≠ SegmentFooter.committedMarker then
    failWith .segmentCorrupted "Segment not committed"
  if footer.cleared.checksum ≠ footer.footerCrc then
    failWith .segmentChecksumFailed "Footer CRC mismatch"
  reader.validateTableHash footer
  reader.validateDigest footer

def validate (reader : SegmentReader) : Except Stop Unit := do
  validateColumns reader.file reader.descriptors
  if reader.header.footerOffset.toNat + SegmentFooter.size ≤ reader.file.length then
    reader.validateFooter

/-- The delta loop from index `i` on; `delta` turns a decoded integer into the difference it
stands for, and both word types add modulo `2 ^ 64`. -/
def decodeDeltas (file : Bytes) (desc : ColumnDescriptor) (message : String)
    (delta : UInt64 → UInt64) :
    Nat → Nat → Nat → UInt64 → Bytes → Except Stop Bytes
  | 0, _, _, _, output => .ok output
  | left + 1, i, offset, previous, output => do
    let (consumed, raw) ← VarIntU.decode (file.drop (desc.offset.toNat + offset))
      (desc.compressedSize - UInt64.ofNat offset).toNat
    if consumed = 0 then
      failWith .segmentCorrupted message
    let value := previous + delta raw
    let output ← storeTo output (8 * i) (u64 value)
    decodeDeltas file desc message delta left (i + 1) (offset + consumed) value output

def decodeDelta (file : Bytes) (desc : ColumnDescriptor) (output : Bytes) (numValues : Nat) :
    Except Stop Bytes := do
  let first := u64Of (← loadFrom file desc.offset.toNat 8)
  let output ← if numValues > 0 then storeTo output 0 (u64 first) else .ok output
  if desc.type = .i64 then
    decodeDeltas file desc "Failed to decode i64 delta" (fun raw => (ZigZag.decode raw).toUInt64)
      (numValues - 1) 1 8
      first output
  else
    decodeDeltas file desc "Failed to decode u64 delta" id (numValues - 1) 1 8 first output

def decodeBitPacked (file : Bytes) (desc : ColumnDescriptor) (output : Bytes) (numValues : Nat) :
    Except Stop Bytes := do
  let reference := u32Of (← loadFrom file desc.offset.toNat 4)
  let bits := leValue (← loadFrom file (desc.offset.toNat + 4) 1)
  let (consumed, packed) ← BitPackU32.decode (file.drop (desc.offset.toNat + 5))
    (desc.compressedSize - 5).toNat bits
    numValues
  if consumed = 0 ∧ numValues > 0 then
    failWith .segmentCorrupted "Failed to decode bit-packed values"
  if desc.type = .u16 then
    storeTo output 0 (Element.word16.putMany (packed.map fun value => (value + reference).toUInt16))
  else
    storeTo output 0 (Element.word32.putMany (packed.map fun value => value + reference))

def decodeRle (file : Bytes) (desc : ColumnDescriptor) (output : Bytes) (numValues : Nat) :
    Except Stop Bytes := do
  let (consumed, values) ← RLE.decode Element.byte
    (file.drop desc.offset.toNat) desc.compressedSize.toNat numValues
  let output ← storeTo output 0 (Element.byte.putMany values)
  if consumed = 0 ∧ numValues > 0 then
    failWith .segmentCorrupted "Failed to decode RLE"
  return output

def decodeColumn (file : Bytes) (desc : ColumnDescriptor) (output : Bytes) (numValues : Nat) :
    Except Stop Bytes := do
  let block ← loadFrom file desc.offset.toNat desc.compressedSize.toNat
  if Crc32C.compute block ≠ desc.dataCrc then
    failWith .segmentChecksumFailed "Column data CRC mismatch"
  if desc.encoding = .delta then decodeDelta file desc output numValues
  else if desc.encoding = .bitPacked then decodeBitPacked file desc output numValues
  else if desc.encoding = .rle ∧ desc.type = .u8 then decodeRle file desc output numValues
  else storeTo output 0 block

/-- The element size of the vector that `read_all_events` allocates for a column. -/
def valueSize : ColumnID → Nat
  | .exchangeTsNs | .receiveTsNs | .sequence | .priceTicks | .tradeOrOrderId => 8
  | .instrumentId | .quantity => 4
  | .flags | .venueId | .sourceId => 2
  | .eventType | .side => 1

/-- The `read_column_*` family: they differ in the type of the pointer only. -/
def readColumn (reader : SegmentReader) (column : ColumnID) (output : Bytes) (numValues : Nat) :
    Except Stop Bytes :=
  match reader.descriptors[column.index]? with
  | none => failWith .outOfRange "Invalid column ID"
  | some desc => decodeColumn reader.file desc output numValues

def readColumns (reader : SegmentReader) : List ColumnID → Except Stop (ColumnID → Bytes)
  | [] => .ok fun _ => []
  | column :: rest => do
    let buffer ← reader.readColumn column
      (List.replicate (reader.rowCount * valueSize column) 0) reader.rowCount
    let others ← reader.readColumns rest
    return fun asked => if asked = column then buffer else others asked

def assembleEvent (rows : Nat) (columns : ColumnID → Bytes) (i : Nat) : CanonicalEvent where
  exchangeTsNs := (Element.word64.getMany rows (columns .exchangeTsNs)).getD i 0
  receiveTsNs := (Element.word64.getMany rows (columns .receiveTsNs)).getD i 0
  sequence := (Element.word64.getMany rows (columns .sequence)).getD i 0
  instrumentId := (Element.word32.getMany rows (columns .instrumentId)).getD i 0
  eventType := ⟨(Element.byte.getMany rows (columns .eventType)).getD i 0⟩
  side := ⟨(Element.byte.getMany rows (columns .side)).getD i 0⟩
  flags := (Element.word16.getMany rows (columns .flags)).getD i 0
  priceTicks := (Element.signed64.getMany rows (columns .priceTicks)).getD i 0
  quantity := (Element.word32.getMany rows (columns .quantity)).getD i 0
  venueId := (Element.word16.getMany rows (columns .venueId)).getD i 0
  sourceId := (Element.word16.getMany rows (columns .sourceId)).getD i 0
  tradeOrOrderId := (Element.word64.getMany rows (columns .tradeOrOrderId)).getD i 0

/-- `read_all_events`. The twelve vectors take 56 bytes a row; a row count they cannot be
allocated for ends the process. -/
def readAllEvents (reader : SegmentReader) : Except Stop (List CanonicalEvent) := do
  if reader.rowCount = 0 then
    return []
  if 2 ^ 63 ≤ 56 * reader.rowCount then
    .error .terminate
  let columns ← reader.readColumns ColumnID.all
  return (List.range reader.rowCount).map (assembleEvent reader.rowCount columns)

def columnMin (reader : SegmentReader) (column : ColumnID) : UInt64 :=
  match reader.descriptors[column.index]? with
  | some desc => desc.minValue
  | none => 0

def columnMax (reader : SegmentReader) (column : ColumnID) : UInt64 :=
  match reader.descriptors[column.index]? with
  | some desc => desc.maxValue
  | none => 0

/-- `bloom_filter_[bit / 8] & (1 << (bit % 8))` is not zero. -/
def bitSet (filter : Bytes) (bit : Nat) : Bool :=
  filter.getD (bit / 8) 0 &&& (1 <<< UInt8.ofNat (bit % 8)) ≠ 0

def mightContainInstrument (reader : SegmentReader) (instrumentId : UInt32) : Bool :=
  if reader.bloomFilter = [] then true
  else
    let hash := instrumentId.toUInt64 * 14695981039346656037
    let numBits := reader.bloomFilter.length * 8
    (List.range 7).all fun h =>
      bitSet reader.bloomFilter ((hash + UInt64.ofNat (h * h)).toNat % numBits)

end SegmentReader

end VectorTick
