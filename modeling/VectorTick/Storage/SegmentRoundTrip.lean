import VectorTick.Storage.SegmentDecode
import VectorTick.Storage.WriterBounds

/-! A written segment opens, validates and reads back the events it was written from. -/

set_option autoImplicit false

namespace VectorTick.SegmentReader

open Foundation Codec Vts1 SegmentWriter

theorem readHeader_withChecksum {file : Bytes} {header : SegmentHeader}
    (contents : slice file 0 SegmentHeader.size = header.withChecksum.toBytes)
    (long : SegmentHeader.size ≤ file.length) (magic : header.magic = Magic.vts1)
      (version : header.version = Version.vts1)
    (schema : header.schemaHash = computeCanonicalSchemaHash) :
    readHeader file = .ok header.withChecksum := by
  have read : loadFrom file 0 SegmentHeader.size = .ok header.withChecksum.toBytes := by
    rw [loadFrom, load_inside _ (by omega), contents]
  have validMagic : header.withChecksum.isValidMagic = true := decide_eq_true magic
  have validVersion : header.withChecksum.isValidVersion = true := decide_eq_true version
  have crc : header.withChecksum.checksum = header.withChecksum.headerCrc := rfl
  have hash : header.withChecksum.schemaHash = computeCanonicalSchemaHash := schema
  rw [readHeader, if_neg (by omega), read]
  simp only [bind, Except.bind, SegmentHeader.ofBytes_toBytes, validMagic, validVersion, crc, hash,
    Bool.not_true, Bool.false_eq_true, if_false, ne_eq, not_true_eq_false]
  rfl

theorem readDescriptors_table {file : Bytes} (descriptors : List ColumnDescriptor)
    (intact : ∀ desc ∈ descriptors, desc.checksum = desc.descriptorCrc) {offset : Nat}
    (contents : slice file offset (descriptors.flatMap ColumnDescriptor.toBytes).length =
      descriptors.flatMap ColumnDescriptor.toBytes)
    (inside : offset + (descriptors.flatMap ColumnDescriptor.toBytes).length ≤ file.length) :
    readDescriptors file descriptors.length offset = .ok descriptors := by
  induction descriptors generalizing offset with
  | nil => rfl
  | cons desc rest ih =>
    rw [List.flatMap_cons, List.length_append, desc.length_toBytes] at contents inside
    rw [slice_add] at contents
    obtain ⟨first, others⟩ :=
      List.append_inj contents (by rw [length_slice (by omega), desc.length_toBytes])
    have read : loadFrom file offset ColumnDescriptor.size = .ok desc.toBytes := by
      rw [loadFrom, load_inside _ (by omega), first]
    have crc : desc.cleared.checksum = desc.descriptorCrc := by
      rw [ColumnDescriptor.checksum_cleared, intact desc (by simp)]
    rw [List.length_cons, readDescriptors, if_neg (by omega), read, ok_bind,
      ColumnDescriptor.ofBytes_toBytes, if_neg (not_not_intro crc),
      ih (fun desc member => intact desc (by simp [member])) others (by omega), ok_bind]
    rfl

theorem readZoneMaps_inside (file : Bytes) (count offset : Nat)
    (inside : offset + count * ZoneMap.size ≤ file.length) :
    ∃ zoneMaps, readZoneMaps file count offset = .ok zoneMaps := by
  induction count generalizing offset with
  | zero => exact ⟨[], rfl⟩
  | succ count ih =>
    rw [Nat.succ_mul] at inside
    obtain ⟨rest, read⟩ := ih (offset + ZoneMap.size) (by omega)
    refine ⟨ZoneMap.ofBytes (slice file offset ZoneMap.size) :: rest, ?_⟩
    rw [readZoneMaps, if_neg (by omega), loadFrom, load_inside _ (by omega), read]
    rfl

theorem readZoneMaps_table {file : Bytes} (zones : List ZoneMap) {offset : Nat}
    (contents : slice file offset (zones.map ZoneMap.toBytes).flatten.length =
      (zones.map ZoneMap.toBytes).flatten)
    (inside : offset + (zones.map ZoneMap.toBytes).flatten.length ≤ file.length) :
    readZoneMaps file zones.length offset = .ok zones := by
  induction zones generalizing offset with
  | nil => rfl
  | cons zone rest ih =>
    rw [List.map_cons, List.flatten_cons, List.length_append,
      zone.length_toBytes] at contents inside
    rw [slice_add] at contents
    obtain ⟨first, others⟩ :=
      List.append_inj contents (by rw [length_slice (by omega), zone.length_toBytes])
    have read : loadFrom file offset ZoneMap.size = .ok zone.toBytes := by
      rw [loadFrom, load_inside _ (by omega), first]
    rw [List.length_cons, readZoneMaps, if_neg (by omega), read, ok_bind, ZoneMap.ofBytes_toBytes,
      ih others (by omega), ok_bind]
    rfl

theorem sealedFrom_get {file : Bytes} (rowCount : Nat) (columns : List PlannedColumn) {offset : Nat}
    (contents : slice file offset (blocks columns).length = blocks columns)
    (inside : offset + (blocks columns).length ≤ file.length)
    (small : file.length < 2 ^ 64) {i : Nat}
    {column : PlannedColumn} (selected : columns[i]? = some column) :
    ∃ desc, (sealedFrom rowCount columns offset)[i]? = some desc ∧ Placed file desc column.block ∧
      desc.type = getColumnType column.plan.column ∧ desc.encoding = column.plan.encoding := by
  induction columns generalizing offset i with
  | nil => cases selected
  | cons head rest ih =>
    obtain ⟨first, others⟩ := slice_blocks_cons contents inside
    rw [blocks_cons, List.length_append] at inside
    cases i with
    | zero =>
      have same : head = column := by simpa using selected
      subst same
      have start : (UInt64.ofNat offset).toNat = offset := by
        rw [UInt64.toNat_ofNat', Nat.mod_eq_of_lt (by omega)]
      have size : (UInt64.ofNat (offset + head.block.length - offset)).toNat =
          head.block.length := by
        rw [UInt64.toNat_ofNat', Nat.add_sub_cancel_left, Nat.mod_eq_of_lt (by omega)]
      refine ⟨_, rfl, ?_, rfl, rfl⟩
      exact {
        inside := by change (UInt64.ofNat offset).toNat + _ ≤ _; omega
        contents := by change slice file (UInt64.ofNat offset).toNat _ = _; rw [start, first]
        size := size
        crc := rfl }
    | succ i =>
      obtain ⟨desc, found, facts⟩ := ih others (by omega) (i := i) (by simpa using selected)
      exact ⟨desc, by simpa [sealedFrom] using found, facts⟩

theorem validateColumns_placed {file : Bytes} (descriptors : List ColumnDescriptor)
    (small : file.length < 2 ^ 64)
    (placed : ∀ desc ∈ descriptors, ∃ block, Placed file desc block) :
    validateColumns file descriptors = .ok () := by
  induction descriptors with
  | nil => rfl
  | cons desc rest ih =>
    obtain ⟨block, here⟩ := placed desc (by simp)
    have inside := here.inside
    have ends : (desc.offset + desc.compressedSize).toNat = desc.offset.toNat + block.length := by
      rw [UInt64.toNat_add, here.size, Nat.mod_eq_of_lt (by omega)]
    rw [validateColumns, ends, if_neg (by omega), here.load, here.crc]
    simp only [bind, Except.bind, ne_eq, not_true_eq_false, if_false]
    exact ih fun desc member => placed desc (by simp [member])

section Written

variable {writer : SegmentWriter} {events : List CanonicalEvent} {file : Bytes}

theorem length_filter_word (order : layoutEnd writer < 2 ^ 32) :
    (UInt32.ofNat (BloomFilterParams.forItems writer.rowCount).sizeBytes).toNat =
      (BloomFilterParams.forItems writer.rowCount).sizeBytes := by
  obtain ⟨_, _, _, footers, ends⟩ := layout_order writer
  rw [UInt32.toNat_ofNat', Nat.mod_eq_of_lt (by omega)]

theorem written_placed (wrote : FileOf writer file) (order : layoutEnd writer < 2 ^ 32) {i : Nat}
    {column : PlannedColumn} (selected : (planned writer)[i]? = some column) :
    ∃ desc, (sealedDescriptors writer)[i]? = some desc ∧ Placed file desc column.block ∧
      desc.type = getColumnType column.plan.column ∧ desc.encoding = column.plan.encoding := by
  have length := wrote.length
  obtain ⟨_, zones, blooms, footers, ends⟩ := layout_order writer
  have columns : columnsStart + (blocks (planned writer)).length = columnsEnd writer := rfl
  exact sealedFrom_get writer.rowCount (planned writer) wrote.columns (by omega) (by omega) selected

theorem sealedFrom_intact (rowCount : Nat) (columns : List PlannedColumn) (offset : Nat) :
    ∀ desc ∈ sealedFrom rowCount columns offset, desc.checksum = desc.descriptorCrc := by
  induction columns generalizing offset with
  | nil => intro desc member; cases member
  | cons column rest ih =>
    intro desc member
    rcases List.mem_cons.mp member with rfl | later
    · exact ColumnDescriptor.checksum_withChecksum _
    · exact ih _ desc later

theorem readHeader_written (wrote : FileOf writer file) :
    readHeader file = .ok (fileHeader writer) := by
  have length := wrote.length
  obtain ⟨starts, zones, blooms, footers, ends⟩ := layout_order writer
  exact readHeader_withChecksum wrote.header (by rw [SegmentHeader.size]; omega) rfl rfl rfl

theorem readDescriptors_written (wrote : FileOf writer file) :
    readDescriptors file columnCount (fileHeader writer).descriptorOffset.toNat =
      .ok (sealedDescriptors writer) := by
  have length := wrote.length
  obtain ⟨starts, zones, blooms, footers, ends⟩ := layout_order writer
  have tableLength := length_descriptorTable writer
  have count : (sealedDescriptors writer).length = columnCount := length_sealedFrom _ _ _
  rw [← count]
  apply readDescriptors_table _ (sealedFrom_intact _ _ _)
  · exact (tableLength ▸ wrote.table : slice file 128 (descriptorTable writer).length =
      descriptorTable writer)
  · change 128 + (descriptorTable writer).length ≤ file.length
    omega

theorem opened_descriptors (wrote : FileOf writer file) {reader : SegmentReader}
    (opened : openFile (some file) = .ok reader) :
    reader.descriptors = sealedDescriptors writer := by
  have length := wrote.length
  obtain ⟨_, _, _, _, ends⟩ := layout_order writer
  have some : file ≠ [] := List.ne_nil_of_length_pos (by omega)
  simp only [openFile, if_neg some, readHeader_written wrote, ok_bind,
    readDescriptors_written wrote, pure, Except.pure] at opened
  cases zoned : readZoneMaps file columnCount (fileHeader writer).zoneMapOffset.toNat with
  | error stop =>
    rw [zoned, error_bind] at opened
    cases opened
  | ok zones =>
    rw [zoned, ok_bind] at opened
    cases filtered : readBloomFilter file (fileHeader writer) with
    | error stop =>
      rw [filtered, error_bind] at opened
      cases opened
    | ok filter =>
      rw [filtered, ok_bind] at opened
      cases opened
      rfl

theorem readZoneMaps_written (wrote : FileOf writer file) :
    readZoneMaps file columnCount (zoneMapOffset writer) = .ok (fileZones writer) := by
  have length := wrote.length
  obtain ⟨starts, zones, blooms, footers, ends⟩ := layout_order writer
  have count : (fileZones writer).length = columnCount := by
    rw [fileZones, List.length_map, length_descriptorsFrom, length_planned, columnCount]
  have size := length_zonePieces writer
  have pieces : (fileZones writer).map ZoneMap.toBytes = zonePieces writer := by
    rw [fileZones, List.map_map]
    rfl
  rw [← count]
  apply readZoneMaps_table
  · rw [pieces, size]
    exact wrote.zones
  · rw [pieces, size]
    omega

theorem written_opens (wrote : FileOf writer file) (order : layoutEnd writer < 2 ^ 32) :
    ∃ reader, openFile (some file) = .ok reader ∧ reader.file = file ∧
      reader.header = fileHeader writer ∧
      reader.descriptors = sealedDescriptors writer ∧ reader.zoneMaps = fileZones writer ∧
      reader.bloomFilter = fileFilter writer := by
  have length := wrote.length
  obtain ⟨starts, zones, blooms, footers, ends⟩ := layout_order writer
  have header := readHeader_written wrote
  have table := readDescriptors_written wrote
  have zoneStart : (fileHeader writer).zoneMapOffset.toNat = zoneMapOffset writer := by
    change (UInt32.ofNat (zoneMapOffset writer)).toNat = _
    rw [UInt32.toNat_ofNat', Nat.mod_eq_of_lt (by omega)]
  have zoned := readZoneMaps_written wrote
  have filterStart : (fileHeader writer).bloomFilterOffset.toNat = bloomFilterOffset writer := by
    change (UInt32.ofNat (bloomFilterOffset writer)).toNat = _
    rw [UInt32.toNat_ofNat', Nat.mod_eq_of_lt (by omega)]
  have filterSize : (fileHeader writer).bloomFilterSize.toNat =
      (BloomFilterParams.forItems writer.rowCount).sizeBytes := length_filter_word order
  have filterLength : (fileFilter writer).length =
      (BloomFilterParams.forItems writer.rowCount).sizeBytes :=
    length_bloomFilter _ _
  have filtered : readBloomFilter file (fileHeader writer) = .ok (fileFilter writer) := by
    rw [readBloomFilter, filterStart, filterSize]
    by_cases some : (fileHeader writer).bloomFilterSize > 0
    · rw [if_pos some, if_neg (by omega), loadFrom, load_inside _ (by omega), wrote.filter]
    · have none : (fileFilter writer).length = 0 := by
        rw [gt_iff_lt, UInt32.lt_iff_toNat_lt, filterSize] at some
        rw [filterLength]
        exact Nat.eq_zero_of_not_pos some
      rw [if_neg some, List.length_eq_zero_iff.mp none]
  have some : file ≠ [] := List.ne_nil_of_length_pos (by omega)
  refine ⟨⟨file, fileHeader writer, sealedDescriptors writer, fileZones writer, fileFilter writer⟩,
    ?_, rfl, rfl, rfl,
    rfl, rfl⟩
  simp only [openFile, if_neg some, header, table, zoneStart, zoned, filtered, bind, Except.bind]
  rfl

theorem written_validates (wrote : FileOf writer file) (order : layoutEnd writer < 2 ^ 32)
    {reader : SegmentReader}
    (sameFile : reader.file = file) (sameHeader : reader.header = fileHeader writer)
    (sameTable : reader.descriptors = sealedDescriptors writer) : reader.validate = .ok () := by
  have length := wrote.length
  obtain ⟨starts, zones, blooms, footers, ends⟩ := layout_order writer
  have tableLength := length_descriptorTable writer
  have count : (sealedDescriptors writer).length = 12 := length_sealedFrom _ _ _
  have columns : validateColumns file (sealedDescriptors writer) = .ok () := by
    apply validateColumns_placed _ (by omega)
    intro desc member
    obtain ⟨i, inside, rfl⟩ := List.getElem_of_mem member
    obtain ⟨column, selected⟩ : ∃ column, (planned writer)[i]? = some column :=
      ⟨_, List.getElem?_eq_getElem (by rw [length_planned]; omega)⟩
    obtain ⟨desc, found, placed, _⟩ := written_placed wrote order selected
    rw [List.getElem?_eq_getElem inside, Option.some.injEq] at found
    exact ⟨_, found ▸ placed⟩
  have footerStart : (fileHeader writer).footerOffset.toNat = footerOffset writer := by
    change (UInt32.ofNat (footerOffset writer)).toNat = _
    rw [UInt32.toNat_ofNat', Nat.mod_eq_of_lt (by omega)]
  have footer : loadFrom file (footerOffset writer) SegmentFooter.size =
      .ok (fileFooter writer).toBytes := by
    rw [loadFrom, load_inside _ (by rw [SegmentFooter.size]; omega), wrote.footer]
  have table : loadFrom file (fileHeader writer).descriptorOffset.toNat
      ((sealedDescriptors writer).length * ColumnDescriptor.size) =
        .ok (descriptorTable writer) := by
    rw [count]
    change loadFrom file 128 768 = _
    rw [loadFrom, load_inside _ (by omega)]
    exact congrArg Except.ok wrote.table
  have crc : (fileFooter writer).cleared.checksum = (fileFooter writer).footerCrc := by
    rw [SegmentFooter.checksum_cleared]
    exact SegmentFooter.checksum_withChecksum _
  have marker : (fileFooter writer).commitMarker = SegmentFooter.committedMarker := rfl
  have hash : (fileFooter writer).descriptorTableHash =
      (Crc32C.compute (descriptorTable writer)).toUInt64 := rfl
  have digest : (fileFooter writer).segmentDigest =
      (sealedDescriptors writer).foldl
        (fun digest desc => hashCombine digest desc.dataCrc.toUInt64) 0 := rfl
  have tableChecked : reader.validateTableHash (fileFooter writer) = .ok () := by
    rw [validateTableHash, sameFile, sameTable, sameHeader, table, ok_bind,
      if_neg (not_not_intro hash), ite_self]
  have digestChecked : reader.validateDigest (fileFooter writer) = .ok () := by
    rw [validateDigest, sameTable, if_neg (not_not_intro digest), ite_self]
  rw [validate, sameFile, sameTable, sameHeader, columns, ok_bind, footerStart,
    if_pos (by rw [SegmentFooter.size]; omega), validateFooter, sameFile, sameHeader, footerStart,
    footer, ok_bind, SegmentFooter.ofBytes_toBytes, if_neg (not_not_intro marker),
    if_neg (not_not_intro crc), tableChecked, ok_bind, digestChecked]

/-- The buffer of a column once it is decoded. -/
def columnBuffer (events : List CanonicalEvent) : ColumnID → Bytes
  | .exchangeTsNs => Element.word64.putMany (events.map (·.exchangeTsNs))
  | .receiveTsNs => Element.word64.putMany (events.map (·.receiveTsNs))
  | .sequence => Element.word64.putMany (events.map (·.sequence))
  | .instrumentId => Element.word32.putMany (events.map (·.instrumentId))
  | .eventType => Element.byte.putMany (events.map (·.eventType.value))
  | .side => Element.byte.putMany (events.map (·.side.value))
  | .flags => Element.word16.putMany (events.map (·.flags))
  | .priceTicks => Element.signed64.putMany (events.map (·.priceTicks))
  | .quantity => Element.word32.putMany (events.map (·.quantity))
  | .venueId => Element.word16.putMany (events.map (·.venueId))
  | .sourceId => Element.word16.putMany (events.map (·.sourceId))
  | .tradeOrOrderId => Element.word64.putMany (events.map (·.tradeOrOrderId))

/-- A column is read by decoding under its descriptor, wherever that stands. -/
theorem readColumn_at (wrote : FileOf writer file) (order : layoutEnd writer < 2 ^ 32)
    {reader : SegmentReader}
    (sameFile : reader.file = file) (sameTable : reader.descriptors = sealedDescriptors writer)
    {column : ColumnID}
    {i : Nat} (index : column.index = i) {source : PlannedColumn}
    (selected : (planned writer)[i]? = some source)
    {output buffer : Bytes} {numValues : Nat}
    (decoded : ∀ desc, Placed file desc source.block →
      desc.type = getColumnType source.plan.column →
      desc.encoding = source.plan.encoding → decodeColumn file desc output numValues = .ok buffer) :
    reader.readColumn column output numValues = .ok buffer := by
  obtain ⟨desc, found, placed, type, encoding⟩ := written_placed wrote order selected
  rw [readColumn, sameTable, sameFile, index, found]
  exact decoded desc placed type encoding

theorem readColumn_written (holds : Holds writer events) (nonempty : events ≠ [])
    (wrote : FileOf writer file)
    (order : layoutEnd writer < 2 ^ 32) {reader : SegmentReader} (sameFile : reader.file = file)
    (sameTable : reader.descriptors = sealedDescriptors writer) (column : ColumnID) :
    reader.readColumn column (List.replicate (events.length * valueSize column) 0) events.length =
      .ok (columnBuffer events column) := by
  have counted : events.length < 2 ^ 58 := by
    have allocated := holds.allocated_rows
    rw [rowBytes] at allocated
    omega
  have some {T : Type} (field : CanonicalEvent → T) : events.map field ≠
      [] := by simpa using nonempty
  have bound {T : Type} (field : CanonicalEvent → T) : (events.map field).length < 2 ^ 58 := by
    rwa [List.length_map]
  have size {T : Type} (field : CanonicalEvent → T) : (events.map field).length = events.length :=
    List.length_map _
  have room (width : Nat) : (List.replicate (events.length * width) (0 : UInt8)).length =
      events.length * width :=
    List.length_replicate
  have unsigned : ColumnType.u64 ≠ .i64 := by decide
  have wide : ColumnType.u32 ≠ .u16 := by decide
  have reads := @readColumn_at writer file wrote order reader sameFile sameTable
  cases column with
  | exchangeTsNs =>
    refine reads (i := 0) rfl rfl fun desc placed type encoding => ?_
    simp only [holds.exchangeTsNs] at placed
    exact decodeColumn_delta (some _) placed encoding (fun same => unsigned (type.symm.trans same))
      (size _) (room 8)
  | receiveTsNs =>
    refine reads (i := 1) rfl rfl fun desc placed type encoding => ?_
    simp only [holds.receiveTsNs] at placed
    exact decodeColumn_delta (some _) placed encoding (fun same => unsigned (type.symm.trans same))
      (size _) (room 8)
  | sequence =>
    refine reads (i := 2) rfl rfl fun desc placed type encoding => ?_
    simp only [holds.sequences] at placed
    exact decodeColumn_delta (some _) placed encoding (fun same => unsigned (type.symm.trans same))
      (size _) (room 8)
  | instrumentId =>
    refine reads (i := 3) rfl rfl fun desc placed type encoding => ?_
    simp only [holds.instrumentIds] at placed
    exact decodeColumn_words (some _)
      (bound _) placed encoding (fun same => wide (type.symm.trans same)) (size _)
      (room 4)
  | eventType =>
    refine reads (i := 4) rfl rfl fun desc placed type encoding => ?_
    simp only [holds.eventTypes] at placed
    exact decodeColumn_rle (some _) placed encoding type (size _) (room 1)
  | side =>
    refine reads (i := 5) rfl rfl fun desc placed type encoding => ?_
    simp only [holds.sides] at placed
    exact decodeColumn_rle (some _) placed encoding type (size _) (room 1)
  | flags =>
    refine reads (i := 6) rfl rfl fun desc placed type encoding => ?_
    simp only [holds.flags] at placed
    exact decodeColumn_halves (some _) (bound _) placed encoding type (size _) (room 2)
  | priceTicks =>
    refine reads (i := 7) rfl rfl fun desc placed type encoding => ?_
    simp only [holds.priceTicks] at placed
    exact decodeColumn_signed (some _) placed encoding type (size _) (room 8)
  | quantity =>
    refine reads (i := 8) rfl rfl fun desc placed type encoding => ?_
    simp only [holds.quantities] at placed
    exact decodeColumn_words (some _)
      (bound _) placed encoding (fun same => wide (type.symm.trans same)) (size _)
      (room 4)
  | venueId =>
    refine reads (i := 9) rfl rfl fun desc placed type encoding => ?_
    simp only [holds.venueIds] at placed
    exact decodeColumn_raw Element.word16 placed encoding (size _) (room 2)
  | sourceId =>
    refine reads (i := 10) rfl rfl fun desc placed type encoding => ?_
    simp only [holds.sourceIds] at placed
    exact decodeColumn_raw Element.word16 placed encoding (size _) (room 2)
  | tradeOrOrderId =>
    refine reads (i := 11) rfl rfl fun desc placed type encoding => ?_
    simp only [holds.tradeOrOrderIds] at placed
    exact decodeColumn_raw Element.word64 placed encoding (size _) (room 8)

theorem readColumns_ok (reader : SegmentReader) (buffer : ColumnID → Bytes)
    (columns : List ColumnID)
    (each : ∀ column ∈ columns,
      reader.readColumn column (List.replicate (reader.rowCount * valueSize column) 0)
      reader.rowCount = .ok (buffer column)) :
    ∃ read, reader.readColumns columns = .ok read ∧
      ∀ column ∈ columns, read column = buffer column := by
  induction columns with
  | nil => exact ⟨fun _ => [], rfl, by simp⟩
  | cons column rest ih =>
    obtain ⟨read, done, same⟩ := ih fun column member => each column (by simp [member])
    refine ⟨fun asked => if asked = column then buffer column else read asked, ?_, ?_⟩
    · rw [readColumns, each column (by simp), ok_bind, done, ok_bind]
      rfl
    · intro asked member
      by_cases here : asked = column
      · simp [here]
      · simp only [here, if_false]
        exact same asked (by simpa [here] using member)

theorem assembleEvent_columnBuffer {events : List CanonicalEvent} {columns : ColumnID → Bytes}
    (same : ∀ column, columns column = columnBuffer events column) :
    (List.range events.length).map (assembleEvent events.length columns) = events := by
  have restore {T : Type} (element : Element T) (field : CanonicalEvent → T) :
      element.getMany events.length (element.putMany (events.map field)) = events.map field := by
    have whole := element.getMany_putMany (events.map field) []
    rwa [List.append_nil, List.length_map] at whole
  apply List.ext_getElem
  · simp
  · intro i _ inside
    simp [assembleEvent, same, columnBuffer, restore, List.getD_eq_getElem?_getD, inside]

theorem written_reads (holds : Holds writer events) (nonempty : events ≠ [])
    (wrote : FileOf writer file)
    (order : layoutEnd writer < 2 ^ 32) {reader : SegmentReader} (sameFile : reader.file = file)
    (sameHeader : reader.header = fileHeader writer)
    (sameTable : reader.descriptors = sealedDescriptors writer) :
    reader.readAllEvents = .ok events := by
  have allocated := holds.allocated_rows
  rw [rowBytes] at allocated
  have rows : reader.rowCount = events.length := by
    rw [rowCount, sameHeader]
    change (UInt64.ofNat writer.rowCount).toNat = _
    rw [UInt64.toNat_ofNat', holds.rowCount, Nat.mod_eq_of_lt (by omega)]
  have some := List.length_pos_iff.mpr nonempty
  obtain ⟨columns, read, same⟩ := readColumns_ok reader (columnBuffer events) ColumnID.all (by
    intro column _
    rw [rows]
    exact readColumn_written holds nonempty wrote order sameFile sameTable column)
  have all : ∀ column, columns column = columnBuffer events column := fun column =>
    same column (by cases column <;> decide)
  rw [readAllEvents, if_neg (by omega), if_neg (by omega), read, ok_bind, rows,
    assembleEvent_columnBuffer all]
  rfl

end Written

/-- A file that opens, validates and reads back a given list of events. -/
def Reads (file : Bytes) (events : List CanonicalEvent) : Prop :=
  ∃ reader, openFile (some file) = .ok reader ∧ reader.validate = .ok () ∧
    reader.readAllEvents = .ok events

theorem fileOf_reads {writer : SegmentWriter} {events : List CanonicalEvent} {file : Bytes}
    (holds : Holds writer events)
    (nonempty : events ≠ []) (wrote : FileOf writer file) (order : layoutEnd writer < 2 ^ 32) :
    Reads file events := by
  obtain ⟨reader, opened, sameFile, sameHeader, sameTable, _⟩ := written_opens wrote order
  exact ⟨reader, opened, written_validates wrote order sameFile sameHeader sameTable,
    written_reads holds nonempty wrote order sameFile sameHeader sameTable⟩

/-- The offsets of a segment of at most the configured number of rows fit their 32-bit fields. -/
theorem layoutEnd_small {writer : SegmentWriter} {events : List CanonicalEvent}
    (rows : events.length ≤ SegmentConfig.maxRowsPerSegment)
    (fits : layoutEnd writer ≤ blockSize events) :
    layoutEnd writer < 2 ^ 32 := by
  obtain ⟨_, close⟩ := blockSize_bounds events
  rw [bufferSize] at close
  rw [SegmentConfig.maxRowsPerSegment] at rows
  omega

/-- What `write_to_file` writes reads back if its offsets fit their 32-bit fields. -/
theorem writeToFile_reads_small {writer : SegmentWriter} {events : List CanonicalEvent}
    {memory : Allocator} {file : Bytes}
    (holds : Holds writer events) (nonempty : events ≠ []) (small : eventsLayoutEnd events < 2 ^ 32)
    (written : writer.writeToFile memory = .ok file) : Reads file events := by
  obtain ⟨_, wrote, _⟩ := fileOf_written holds written
  exact fileOf_reads holds nonempty wrote (layoutEnd_eq holds ▸ small)

/-- What `write_to_file` writes of at most the configured number of rows reads back. -/
theorem writeToFile_reads {writer : SegmentWriter} {events : List CanonicalEvent}
    {memory : Allocator} {file : Bytes}
    (holds : Holds writer events) (nonempty : events ≠ [])
    (rows : events.length ≤ SegmentConfig.maxRowsPerSegment)
    (written : writer.writeToFile memory = .ok file) : Reads file events := by
  obtain ⟨_, wrote, fits⟩ := fileOf_written holds written
  exact fileOf_reads holds nonempty wrote (layoutEnd_small rows fits)

/-- Valid events for which the block is large enough make a segment. -/
theorem events_written_as {events : List CanonicalEvent} (segmentId : UInt64) {maxRows : Nat}
    (nonempty : events ≠ [])
    (valid : ∀ event ∈ events, Event.validate event = .ok ()) (short : events.length ≤ maxRows)
    (few : rowBytes * maxRows < 2 ^ 63) (room : eventsLayoutEnd events ≤ blockSize events) :
    ∃ fresh writer file, new segmentId maxRows = .ok fresh ∧ fresh.addEvents events = .ok writer ∧
      writer.writeToFile zeroed = .ok file := by
  obtain ⟨fresh, created⟩ : ∃ fresh, new segmentId maxRows = .ok fresh := by
    unfold new
    rw [if_neg (by omega)]
    exact ⟨_, rfl⟩
  have rows := (new_holds created).1.rowCount
  have limit := (new_holds created).2.2.2
  obtain ⟨writer, added⟩ :=
    addEvents_accepts fresh events valid (by rw [rows, limit]; simpa using short)
  have columns := columns_of_room room
  rcases writeToFile_cases (holds_of_addEvents created added) nonempty zeroed with
    ⟨none | tight, _⟩ | ⟨_, overrun, _⟩ | ⟨_, file, written, _⟩
  · cases none
  · omega
  · omega
  · exact ⟨fresh, writer, file, created, added, written⟩

theorem quote_written_as (segmentId : UInt64) {maxRows : Nat} (some : 1 ≤ maxRows)
    (few : rowBytes * maxRows < 2 ^ 63) :
    ∃ fresh writer file, new segmentId maxRows = .ok fresh ∧
      fresh.addEvents [quoteEvent] = .ok writer ∧
      writer.writeToFile zeroed = .ok file :=
  events_written_as segmentId (by decide) (by decide) some few (by decide)

theorem quote_written :
    ∃ fresh writer file, new 1 16 = .ok fresh ∧ fresh.addEvents [quoteEvent] = .ok writer ∧
      writer.writeToFile zeroed = .ok file :=
  quote_written_as 1 (by decide) (by decide)

/-- A segment round trip: all fields of all events, in order. -/
theorem segment_round_trip {segmentId : UInt64} {maxRows : Nat} {fresh writer : SegmentWriter}
    {events : List CanonicalEvent} {memory : Allocator} {file : Bytes}
    (created : new segmentId maxRows = .ok fresh)
    (added : fresh.addEvents events = .ok writer) (nonempty : events ≠ [])
    (rows : events.length ≤ SegmentConfig.maxRowsPerSegment)
    (written : writer.writeToFile memory = .ok file) :
    ∃ reader, openFile (some file) = .ok reader ∧ reader.validate = .ok () ∧
      reader.readAllEvents = .ok events :=
  writeToFile_reads (holds_of_addEvents created added) nonempty rows written

theorem segment_round_trip_quote :
    ∃ fresh writer file, new 1 16 = .ok fresh ∧ fresh.addEvents [quoteEvent] = .ok writer ∧
      writer.writeToFile zeroed = .ok file ∧
      ∃ reader, openFile (some file) = .ok reader ∧ reader.validate = .ok () ∧
        reader.readAllEvents = .ok [quoteEvent] := by
  obtain ⟨fresh, writer, file, created, added, written⟩ := quote_written
  exact ⟨fresh, writer, file, created, added, written,
    segment_round_trip created added (by decide) (by decide) written⟩

end VectorTick.SegmentReader
