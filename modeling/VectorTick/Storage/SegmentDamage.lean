import VectorTick.Storage.ReaderBounds
import VectorTick.Storage.RecordChecks

/-! Damaged segment files: which cuts and which changed bytes opening and validating detect.

The header, the descriptors and the column blocks are under checksums that the reader always
compares. The zone maps and the bloom filter are under none, and the footer is looked at only if
the file reaches its end.
-/

set_option autoImplicit false

namespace VectorTick.SegmentReader

open Foundation Codec Vts1 SegmentWriter

/-- `open` and then `validate`. -/
def openAndValidate (file : Bytes) : Except Stop Unit := do
  let reader ← openFile (some file)
  reader.validate

theorem readHeader_ok {file : Bytes} {header : SegmentHeader}
    (read : readHeader file = .ok header) :
    128 ≤ file.length ∧ header = SegmentHeader.ofBytes (slice file 0 128) ∧ Sealed 124 (u32 0)
    (slice file 0 128) := by
  unfold readHeader at read
  by_cases short : file.length < SegmentHeader.size
  · rw [if_pos short, failWith, error_bind] at read
    cases read
  have long : 128 ≤ file.length := Nat.le_of_not_lt short
  rw [if_neg short, loadFrom, load_inside _ (by rw [SegmentHeader.size]; omega), ok_bind] at read
  generalize found : SegmentHeader.ofBytes (slice file 0 SegmentHeader.size) = stored at read
  dsimp only at read
  split at read
  · cases read
  split at read
  · cases read
  split at read
  · cases read
  rename_i crc
  split at read
  · cases read
  cases read
  refine ⟨long, found.symm, ?_⟩
  rw [← SegmentHeader.checksum_ofBytes (length_slice (by omega)), show slice file 0 128 =
    slice file 0 SegmentHeader.size
    from rfl, found]
  exact not_not.mp crc

theorem readDescriptors_ok {file : Bytes} {count offset : Nat} {descriptors : List ColumnDescriptor}
    (start : offset ≤ file.length) (read : readDescriptors file count offset = .ok descriptors) :
    offset + count * 64 ≤ file.length ∧ ∀ i < count, Sealed 60 []
    (slice file (offset + i * 64) 64) := by
  induction count generalizing offset descriptors with
  | zero => exact ⟨by omega, fun i below => by omega⟩
  | succ count ih =>
    unfold readDescriptors at read
    by_cases short : offset + ColumnDescriptor.size > file.length
    · rw [if_pos short, failWith, error_bind] at read
      cases read
    have long : offset + 64 ≤ file.length := Nat.le_of_not_lt short
    rw [if_neg short, loadFrom, load_inside _ (Nat.le_of_not_lt short), ok_bind] at read
    dsimp only at read
    split at read
    · cases read
    rename_i crc
    cases others : readDescriptors file count (offset + ColumnDescriptor.size) with
    | error stop =>
      rw [others] at read
      cases read
    | ok rest =>
      obtain ⟨inside, later⟩ := ih (by rw [ColumnDescriptor.size]; omega) others
      rw [ColumnDescriptor.size] at inside later
      refine ⟨by omega, fun i below => ?_⟩
      cases i with
      | zero =>
        rw [Nat.zero_mul, Nat.add_zero]
        exact (ColumnDescriptor.checksum_ofBytes (length_slice long)).mp (not_not.mp crc)
      | succ i =>
        have next := later i (by omega)
        rwa [show offset + 64 + i * 64 = offset + (i + 1) * 64 by omega] at next

theorem readZoneMaps_ok {file : Bytes} {count offset : Nat} {zoneMaps : List ZoneMap}
    (read : readZoneMaps file (count + 1) offset = .ok zoneMaps) :
    offset + (count + 1) * 64 ≤ file.length := by
  induction count generalizing offset zoneMaps with
  | zero =>
    unfold readZoneMaps at read
    split at read
    · cases read
    · rename_i inside
      rw [ZoneMap.size] at inside
      omega
  | succ count ih =>
    unfold readZoneMaps at read
    split at read
    · cases read
    rename_i here
    rw [loadFrom, load_inside _ (Nat.le_of_not_lt here), ok_bind] at read
    cases others : readZoneMaps file (count + 1) (offset + ZoneMap.size) with
    | error stop =>
      rw [others] at read
      cases read
    | ok rest =>
      have inside := ih others
      rw [ZoneMap.size] at inside
      omega

/-- The filter is empty or lies in the file. -/
def FilterInside (file : Bytes) (header : SegmentHeader) : Prop :=
  header.bloomFilterSize.toNat = 0 ∨
    header.bloomFilterOffset.toNat + header.bloomFilterSize.toNat ≤ file.length

theorem readBloomFilter_ok {file : Bytes} {header : SegmentHeader} :
    (∃ filter, readBloomFilter file header = .ok filter) ↔ FilterInside file header := by
  have positive : header.bloomFilterSize > 0 ↔ 0 < header.bloomFilterSize.toNat :=
    UInt32.lt_iff_toNat_lt
  unfold readBloomFilter FilterInside
  split
  · rename_i some
    rw [positive] at some
    split
    · rename_i outside
      constructor
      · rintro ⟨filter, read⟩
        cases read
      · intro inside
        omega
    · rename_i inside
      rw [loadFrom, load_inside _ (Nat.le_of_not_lt inside)]
      exact ⟨fun _ => .inr (by omega), fun _ => ⟨_, rfl⟩⟩
  · rename_i none
    rw [positive] at none
    exact ⟨fun _ => .inl (by omega), fun _ => ⟨_, rfl⟩⟩

theorem openFile_ok {file : Bytes} {reader : SegmentReader}
    (opened : openFile (some file) = .ok reader) :
    reader.file = file ∧ readHeader file = .ok reader.header ∧
      readDescriptors file columnCount reader.header.descriptorOffset.toNat =
        .ok reader.descriptors ∧
      reader.header.zoneMapOffset.toNat + 768 ≤ file.length ∧ FilterInside file reader.header := by
  unfold openFile at opened
  dsimp only at opened
  split at opened
  · cases opened
  cases headed : readHeader file with
  | error stop =>
    rw [headed] at opened
    cases opened
  | ok header =>
    rw [headed, ok_bind] at opened
    cases listed : readDescriptors file columnCount header.descriptorOffset.toNat with
    | error stop =>
      rw [listed] at opened
      cases opened
    | ok descriptors =>
      rw [listed, ok_bind] at opened
      cases zoned : readZoneMaps file columnCount header.zoneMapOffset.toNat with
      | error stop =>
        rw [zoned] at opened
        cases opened
      | ok zoneMaps =>
        rw [zoned, ok_bind] at opened
        cases filtered : readBloomFilter file header with
        | error stop =>
          rw [filtered] at opened
          cases opened
        | ok filter =>
          rw [filtered, ok_bind] at opened
          cases opened
          exact ⟨rfl, rfl, listed, readZoneMaps_ok zoned, readBloomFilter_ok.mp ⟨filter, filtered⟩⟩

/-- The header and the descriptor table are those of a writer. -/
structure Fronted (writer : SegmentWriter) (file : Bytes) : Prop where
  long : 896 ≤ file.length
  header : slice file 0 128 = (fileHeader writer).toBytes
  table : slice file 128 768 = descriptorTable writer

section Fronted

variable {writer : SegmentWriter} {file : Bytes}

theorem Fronted.readHeader (front : Fronted writer file) :
    readHeader file = .ok (fileHeader writer) :=
  readHeader_withChecksum front.header
    (by have long := front.long; rw [SegmentHeader.size]; omega) rfl rfl rfl

theorem Fronted.readDescriptors (front : Fronted writer file) :
    readDescriptors file columnCount (fileHeader writer).descriptorOffset.toNat =
      .ok (sealedDescriptors writer) := by
  have long := front.long
  have tableLength := length_descriptorTable writer
  have count : (sealedDescriptors writer).length = columnCount := length_sealedFrom _ _ _
  rw [← count]
  apply readDescriptors_table _ (sealedFrom_intact _ _ _)
  · exact (tableLength ▸ front.table : slice file 128 (descriptorTable writer).length =
      descriptorTable writer)
  · change 128 + (descriptorTable writer).length ≤ file.length
    omega

theorem Fronted.opens_iff (front : Fronted writer file) :
    (∃ reader, openFile (some file) = .ok reader ∧ reader.file = file ∧
      reader.header = fileHeader writer ∧
      reader.descriptors = sealedDescriptors writer) ↔
      (fileHeader writer).zoneMapOffset.toNat + 768 ≤ file.length ∧
        FilterInside file (fileHeader writer) := by
  constructor
  · rintro ⟨reader, opened, sameFile, sameHeader, sameTable⟩
    obtain ⟨_, _, _, zones, filter⟩ := openFile_ok opened
    rw [sameHeader] at zones filter
    exact ⟨zones, filter⟩
  · rintro ⟨zones, inside⟩
    have long := front.long
    obtain ⟨zoneMaps, zoned⟩ :=
      readZoneMaps_inside file columnCount (fileHeader writer).zoneMapOffset.toNat
      (by rw [columnCount, ZoneMap.size]; omega)
    obtain ⟨filter, filtered⟩ := readBloomFilter_ok.mpr inside
    have some : file ≠ [] := List.ne_nil_of_length_pos (by omega)
    refine ⟨⟨file, fileHeader writer, sealedDescriptors writer, zoneMaps, filter⟩, ?_,
      rfl, rfl, rfl⟩
    simp only [openFile, if_neg some, front.readHeader, front.readDescriptors, zoned,
      filtered, bind, Except.bind]
    rfl

theorem Fronted.opened (front : Fronted writer file) {reader : SegmentReader}
    (opened : openFile (some file) = .ok reader) :
    reader.file = file ∧ reader.header = fileHeader writer ∧
      reader.descriptors = sealedDescriptors writer := by
  obtain ⟨sameFile, headed, listed, _, _⟩ := openFile_ok opened
  rw [front.readHeader, Except.ok.injEq] at headed
  rw [← headed, front.readDescriptors, Except.ok.injEq] at listed
  exact ⟨sameFile, headed.symm, listed.symm⟩

/-- What `validate` asks of the 128 bytes it takes for the footer. -/
def FooterPasses (writer : SegmentWriter) (raw : Bytes) : Prop :=
  (SegmentFooter.ofBytes raw).commitMarker = SegmentFooter.committedMarker ∧ Sealed 124 [] raw ∧
    ((SegmentFooter.ofBytes raw).descriptorTableHash = 0 ∨
      (SegmentFooter.ofBytes raw).descriptorTableHash =
        (Crc32C.compute (descriptorTable writer)).toUInt64) ∧
    ((SegmentFooter.ofBytes raw).segmentDigest = 0 ∨
      (SegmentFooter.ofBytes raw).segmentDigest = segmentDigest (sealedDescriptors writer))

theorem Fronted.validateTableHash (front : Fronted writer file) {reader : SegmentReader}
    (sameFile : reader.file = file)
    (sameHeader : reader.header = fileHeader writer)
    (sameTable : reader.descriptors = sealedDescriptors writer)
    (footer : SegmentFooter) :
    reader.validateTableHash footer = .ok () ↔
      (footer.descriptorTableHash = 0 ∨
        footer.descriptorTableHash = (Crc32C.compute (descriptorTable writer)).toUInt64) := by
  have count : (sealedDescriptors writer).length = 12 := length_sealedFrom _ _ _
  have table : loadFrom file (fileHeader writer).descriptorOffset.toNat
      ((sealedDescriptors writer).length * ColumnDescriptor.size) =
        .ok (descriptorTable writer) := by
    rw [count]
    change loadFrom file 128 768 = _
    rw [loadFrom, load_inside _ front.long, front.table]
  unfold SegmentReader.validateTableHash
  rw [sameFile, sameHeader, sameTable, table, ok_bind]
  by_cases zero : footer.descriptorTableHash = 0
  · simp [zero]
  · by_cases same : footer.descriptorTableHash = (Crc32C.compute (descriptorTable writer)).toUInt64
    · simp [same]
    · simp [zero, same, failWith]

theorem validateDigest_iff {reader : SegmentReader}
    (sameTable : reader.descriptors = sealedDescriptors writer)
    (footer : SegmentFooter) :
    reader.validateDigest footer = .ok () ↔
      (footer.segmentDigest = 0 ∨
        footer.segmentDigest = segmentDigest (sealedDescriptors writer)) := by
  unfold SegmentReader.validateDigest
  rw [sameTable, show (sealedDescriptors writer).foldl
    (fun digest desc => hashCombine digest desc.dataCrc.toUInt64) 0 =
    segmentDigest (sealedDescriptors writer) from rfl]
  by_cases zero : footer.segmentDigest = 0
  · simp [zero]
  · by_cases same : footer.segmentDigest = segmentDigest (sealedDescriptors writer)
    · simp [same]
    · simp [zero, same, failWith]

theorem Fronted.validateFooter (front : Fronted writer file) {reader : SegmentReader}
    (sameFile : reader.file = file)
    (sameHeader : reader.header = fileHeader writer)
    (sameTable : reader.descriptors = sealedDescriptors writer)
    (inside : (fileHeader writer).footerOffset.toNat + 128 ≤ file.length) :
    reader.validateFooter = .ok () ↔
      FooterPasses writer (slice file (fileHeader writer).footerOffset.toNat 128) := by
  have hash := front.validateTableHash sameFile sameHeader sameTable
  have digest := @validateDigest_iff writer reader sameTable
  have crc := SegmentFooter.checksum_ofBytes (length_slice inside)
  have read : loadFrom file (fileHeader writer).footerOffset.toNat SegmentFooter.size =
      .ok (slice file (fileHeader writer).footerOffset.toNat 128) := load_inside _ inside
  unfold SegmentReader.validateFooter
  rw [sameFile, sameHeader, read, ok_bind]
  unfold FooterPasses
  generalize slice file (fileHeader writer).footerOffset.toNat 128 = raw at crc
  rw [← crc]
  generalize SegmentFooter.ofBytes raw = footer
  rw [← hash footer, ← digest footer]
  by_cases marker : footer.commitMarker = SegmentFooter.committedMarker
  · rw [if_neg (not_not_intro marker)]
    by_cases same : footer.cleared.checksum = footer.footerCrc
    · rw [if_neg (not_not_intro same)]
      cases reader.validateTableHash footer with
      | error stop => simp [error_bind]
      | ok done => simp [ok_bind, marker, same]
    · rw [if_pos same]
      simp [failWith, same, error_bind]
  · rw [if_pos marker]
    simp [failWith, marker, error_bind]

theorem Fronted.accepted_iff (front : Fronted writer file) :
    openAndValidate file = .ok () ↔
      ((fileHeader writer).zoneMapOffset.toNat + 768 ≤ file.length ∧
        FilterInside file (fileHeader writer)) ∧
        validateColumns file (sealedDescriptors writer) = .ok () ∧
        ((fileHeader writer).footerOffset.toNat + 128 ≤ file.length →
          FooterPasses writer (slice file (fileHeader writer).footerOffset.toNat 128)) := by
  rw [← front.opens_iff]
  unfold openAndValidate
  cases opened : openFile (some file) with
  | error stop => simp [error_bind]
  | ok reader =>
    obtain ⟨sameFile, sameHeader, sameTable⟩ := front.opened opened
    have footer := front.validateFooter sameFile sameHeader sameTable
    rw [ok_bind, SegmentReader.validate, sameTable, sameHeader, sameFile]
    simp only [Except.ok.injEq, exists_eq_left', sameFile, sameHeader, sameTable, true_and]
    cases validateColumns file (sealedDescriptors writer) with
    | error stop => simp [error_bind]
    | ok done =>
      rw [ok_bind]
      by_cases inside : (fileHeader writer).footerOffset.toNat + 128 ≤ file.length
      · rw [if_pos (show (fileHeader writer).footerOffset.toNat + SegmentFooter.size ≤
          file.length from inside),
          footer inside]
        simp [inside]
      · rw [if_neg (show ¬ (fileHeader writer).footerOffset.toNat + SegmentFooter.size ≤
          file.length from inside)]
        simp [inside, pure, Except.pure]

end Fronted

-- Every read of `open` and `validate` is checked first, but for a column whose offset and
-- size add up to more than a word.

theorem readHeader_answers (file : Bytes) : Answers (readHeader file) := by
  unfold readHeader
  refine Answers.guard fun long => (answers_load (by omega)).bind fun raw _ => ?_
  exact Answers.guard fun _ => Answers.guard fun _ => Answers.guard fun _ =>
    Answers.guard fun _ => answers_ok _

theorem readDescriptors_answers (file : Bytes) (count offset : Nat) :
    Answers (readDescriptors file count offset) := by
  induction count generalizing offset with
  | zero => exact answers_ok _
  | succ count ih =>
    unfold readDescriptors
    refine Answers.guard fun inside => (answers_load (by omega)).bind fun raw _ => ?_
    exact Answers.guard fun _ => (ih _).bind fun rest _ => answers_ok _

theorem readZoneMaps_answers (file : Bytes) (count offset : Nat) :
    Answers (readZoneMaps file count offset) := by
  induction count generalizing offset with
  | zero => exact answers_ok _
  | succ count ih =>
    unfold readZoneMaps
    refine Answers.guard fun inside => (answers_load (by omega)).bind fun raw _ => ?_
    exact (ih _).bind fun rest _ => answers_ok _

theorem readBloomFilter_answers (file : Bytes) (header : SegmentHeader) :
    Answers (readBloomFilter file header) := by
  unfold readBloomFilter
  split
  · split
    · exact answers_failWith _ _
    · exact answers_load (by omega)
  · exact answers_ok _

theorem openFile_answers (file : Bytes) : Answers (openFile (some file)) := by
  unfold openFile
  dsimp only
  refine Answers.guard fun _ => (readHeader_answers file).bind fun header _ => ?_
  refine (readDescriptors_answers file _ _).bind fun descriptors _ => ?_
  refine (readZoneMaps_answers file _ _).bind fun zoneMaps _ => ?_
  exact (readBloomFilter_answers file header).bind fun filter _ => answers_ok _

theorem validateColumns_answers {file : Bytes} (descriptors : List ColumnDescriptor)
    (plain : ∀ desc ∈ descriptors, desc.offset.toNat + desc.compressedSize.toNat < 2 ^ 64) :
    Answers (validateColumns file descriptors) := by
  induction descriptors with
  | nil => exact answers_ok _
  | cons desc rest ih =>
    have here := plain desc (by simp)
    unfold validateColumns
    refine Answers.guard fun inside => ?_
    rw [UInt64.toNat_add, Nat.mod_eq_of_lt here] at inside
    refine (answers_load (by omega)).bind fun block _ => Answers.guard fun _ => ?_
    exact ih fun desc member => plain desc (by simp [member])

theorem Fronted.validate_answers {writer : SegmentWriter} {file : Bytes}
    (front : Fronted writer file)
    (plain : ∀ desc ∈ sealedDescriptors writer,
      desc.offset.toNat + desc.compressedSize.toNat < 2 ^ 64)
    {reader : SegmentReader} (sameFile : reader.file = file)
    (sameHeader : reader.header = fileHeader writer)
    (sameTable : reader.descriptors = sealedDescriptors writer) : Answers reader.validate := by
  have count : (sealedDescriptors writer).length = 12 := length_sealedFrom _ _ _
  have long := front.long
  unfold SegmentReader.validate
  rw [sameFile, sameHeader, sameTable]
  refine (validateColumns_answers _ plain).bind fun _ _ => ?_
  split
  · rename_i inside
    unfold SegmentReader.validateFooter
    rw [sameFile, sameHeader]
    refine (answers_load inside).bind fun raw _ => Answers.guard fun _ => Answers.guard fun _ => ?_
    refine Answers.bind ?_ fun _ _ => ?_
    · unfold SegmentReader.validateTableHash
      split
      · rw [sameFile, sameHeader, sameTable, count]
        refine (answers_load (show 128 + 768 ≤ file.length from long)).bind fun table _ => ?_
        split
        · exact answers_failWith _ _
        · exact answers_ok _
      · exact answers_ok _
    · unfold SegmentReader.validateDigest
      split
      · split
        · exact answers_failWith _ _
        · exact answers_ok _
      · exact answers_ok _
  · exact answers_ok _

theorem sealedFrom_end (rowCount : Nat) {limit : Nat} (columns : List PlannedColumn) {offset : Nat}
    (start : offset ≤ limit)
    (small : offset + (blocks columns).length < 2 ^ 64)
    (inside : ∀ desc ∈ sealedFrom rowCount columns offset,
      desc.offset.toNat + desc.compressedSize.toNat ≤ limit) :
    offset + (blocks columns).length ≤ limit := by
  induction columns generalizing offset with
  | nil => simpa [blocks] using start
  | cons column rest ih =>
    rw [blocks_cons, List.length_append] at small ⊢
    have here := inside _ (List.mem_cons_self)
    change (UInt64.ofNat offset).toNat +
      (UInt64.ofNat (offset + column.block.length - offset)).toNat ≤ limit at here
    rw [UInt64.toNat_ofNat', UInt64.toNat_ofNat', Nat.add_sub_cancel_left,
      Nat.mod_eq_of_lt (by omega), Nat.mod_eq_of_lt (by omega)] at here
    have later := ih here (by omega) fun desc member => inside desc (List.mem_cons_of_mem _ member)
    omega

/-- A changed byte in the blocks shows in the block it belongs to. -/
theorem sealedFrom_changed {file : Bytes} {pos : Nat} {byte : UInt8}
    (differ : file[pos]? ≠ some byte) (rowCount : Nat)
    (columns : List PlannedColumn) {offset : Nat}
    (contents : slice file offset (blocks columns).length = blocks columns)
    (inside : offset + (blocks columns).length ≤ file.length)
    (small : file.length < 2 ^ 64) (begins : offset ≤ pos)
    (ends : pos < offset + (blocks columns).length) :
    ∃ desc ∈ sealedFrom rowCount columns offset, ¬ Checked (file.set pos byte) desc := by
  induction columns generalizing offset with
  | nil =>
    simp only [blocks, List.flatMap_nil, List.length_nil] at ends
    omega
  | cons column rest ih =>
    obtain ⟨first, others⟩ := slice_blocks_cons contents inside
    rw [blocks_cons, List.length_append] at inside ends
    by_cases here : pos < offset + column.block.length
    · refine ⟨_, List.mem_cons_self, fun checked => ?_⟩
      have crc := checked.crc
      change Crc32C.compute (slice (file.set pos byte) (UInt64.ofNat offset).toNat
        (UInt64.ofNat (offset + column.block.length - offset)).toNat) =
          Crc32C.compute column.block at crc
      rw [UInt64.toNat_ofNat', UInt64.toNat_ofNat', Nat.add_sub_cancel_left,
        Nat.mod_eq_of_lt (by omega), Nat.mod_eq_of_lt (by omega), slice_set_inside byte begins,
        first] at crc
      have other : column.block[pos - offset]? ≠ some byte := by
        rw [← first, getElem?_slice begins here]
        exact differ
      have changed := compute_set_ne (by omega) other []
      rw [List.append_nil, List.append_nil] at changed
      exact changed crc
    · obtain ⟨desc, member, broken⟩ := ih others (by omega) (by omega) (by omega)
      exact ⟨desc, List.mem_cons_of_mem _ member, broken⟩

section Written

variable {writer : SegmentWriter} {file : Bytes}

/-- What holds of every file that `write_to_file` hands over. -/
structure Produced (writer : SegmentWriter) (file : Bytes) : Prop where
  wrote : FileOf writer file
  small : file.length < 2 ^ 64
  filter : 0 < (BloomFilterParams.forItems writer.rowCount).sizeBytes

theorem produced_of_writeToFile {events : List CanonicalEvent} {memory : Allocator}
    (holds : Holds writer events)
    (written : writer.writeToFile memory = .ok file) : Produced writer file := by
  have nonempty : events ≠ [] := by
    rintro rfl
    have rows : writer.rowCount = 0 := holds.rowCount
    rw [writeToFile, if_pos rows] at written
    cases written
  have allocated := holds.allocated_rows
  rw [rowBytes] at allocated
  rcases writeToFile_cases holds nonempty memory with ⟨_, status, failed⟩ | ⟨_, _, faulted⟩ |
    ⟨fits, found, done, wrote⟩
  · rw [failed] at written
    cases written
  · rw [faulted] at written
    cases written
  · rw [done, Except.ok.injEq] at written
    subst written
    refine ⟨wrote, ?_, ?_⟩
    · rw [wrote.length, layoutEnd_eq holds]
      obtain ⟨_, close⟩ := blockSize_bounds events
      rw [bufferSize] at close
      omega
    · rw [holds.rowCount]
      exact sizeBytes_pos (List.length_pos_iff.mpr nonempty) (by omega)

theorem Produced.columns_inside (produced : Produced writer file) :
    columnsStart + (blocks (planned writer)).length ≤ file.length := by
  have length := produced.wrote.length
  obtain ⟨_, zones, blooms, footers, ends⟩ := layout_order writer
  have columns : columnsStart + (blocks (planned writer)).length = columnsEnd writer := rfl
  omega

/-- Every descriptor has its block in a file that holds the blocks. -/
theorem sealed_placed (contents : slice file columnsStart (blocks (planned writer)).length =
    blocks (planned writer))
    (inside : columnsStart + (blocks (planned writer)).length ≤ file.length)
    (small : file.length < 2 ^ 64) :
    ∀ desc ∈ sealedDescriptors writer, ∃ block, Placed file desc block := by
  intro desc member
  obtain ⟨i, listed, rfl⟩ := List.getElem_of_mem member
  have count : (sealedDescriptors writer).length = (planned writer).length :=
    length_sealedFrom _ _ _
  obtain ⟨column, selected⟩ : ∃ column, (planned writer)[i]? = some column :=
    ⟨_, List.getElem?_eq_getElem (by omega)⟩
  obtain ⟨desc, found, placed, _⟩ :=
    sealedFrom_get writer.rowCount (planned writer) contents inside small selected
  change (sealedDescriptors writer)[i]? = some desc at found
  rw [List.getElem?_eq_getElem listed, Option.some.injEq] at found
  exact ⟨_, found ▸ placed⟩

theorem Produced.plain (produced : Produced writer file) :
    ∀ desc ∈ sealedDescriptors writer, desc.offset.toNat + desc.compressedSize.toNat < 2 ^ 64 := by
  intro desc member
  obtain ⟨block, placed⟩ :=
    sealed_placed produced.wrote.columns produced.columns_inside produced.small desc member
  have ends := placed.inside
  have small := produced.small
  rw [placed.size]
  omega

/-- The file is long enough for everything that is looked at before the footer. -/
def Reaches (writer : SegmentWriter) (length : Nat) : Prop :=
  columnsEnd writer ≤ length ∧ (fileHeader writer).zoneMapOffset.toNat + 768 ≤ length ∧
    ((fileHeader writer).bloomFilterSize.toNat = 0 ∨
      (fileHeader writer).bloomFilterOffset.toNat +
        (fileHeader writer).bloomFilterSize.toNat ≤ length)

theorem Produced.fronted_take (produced : Produced writer file) {k : Nat} (long : 896 ≤ k)
    (cut : k ≤ file.length) :
    Fronted writer (file.take k) where
  long := by rw [List.length_take]; omega
  header := by rw [slice_take _ (by omega)]; exact produced.wrote.header
  table := by rw [slice_take _ (by omega)]; exact produced.wrote.table

theorem Produced.validateColumns_take (produced : Produced writer file) {k : Nat} (long : 896 ≤ k)
    (cut : k ≤ file.length) :
    validateColumns (file.take k) (sealedDescriptors writer) = .ok () ↔ columnsEnd writer ≤ k := by
  have length : (file.take k).length = k := by rw [List.length_take]; omega
  have small := produced.small
  have inside := produced.columns_inside
  constructor
  · intro validated
    have checked := checked_of_validateColumns _ validated
    refine sealedFrom_end writer.rowCount (planned writer) (by rw [columnsStart_eq]; omega)
      (by omega) fun desc member => ?_
    have here := (checked desc member).inside
    omega
  · intro reaches
    have ends : columnsStart + (blocks (planned writer)).length ≤ k := reaches
    apply validateColumns_placed _ (by omega)
    apply sealed_placed _ (by omega) (by omega)
    rw [slice_take _ ends]
    exact produced.wrote.columns

theorem Produced.short_refused (produced : Produced writer file) {k : Nat} (short : k < 896)
    (cut : k ≤ file.length) :
    openAndValidate (file.take k) ≠ .ok () := by
  intro accepted
  have length : (file.take k).length = k := by rw [List.length_take]; omega
  unfold openAndValidate at accepted
  cases opened : openFile (some (file.take k)) with
  | error stop =>
    rw [opened, error_bind] at accepted
    cases accepted
  | ok reader =>
    obtain ⟨_, headed, listed, _, _⟩ := openFile_ok opened
    obtain ⟨long, found, _⟩ := readHeader_ok headed
    have header : reader.header = fileHeader writer := by
      rw [found, slice_take _ (by omega), show slice file 0 128 = _ from produced.wrote.header,
        SegmentHeader.ofBytes_toBytes]
    have start : (fileHeader writer).descriptorOffset.toNat = 128 := rfl
    rw [header, start] at listed
    have inside := (readDescriptors_ok long listed).1
    rw [columnCount] at inside
    omega

theorem Produced.take_accepted_iff (produced : Produced writer file) {k : Nat}
    (cut : k < file.length) :
    openAndValidate (file.take k) = .ok () ↔
      Reaches writer k ∧ ((fileHeader writer).footerOffset.toNat + 128 ≤ k →
        FooterPasses writer (slice file (fileHeader writer).footerOffset.toNat 128)) := by
  have length : (file.take k).length = k := by rw [List.length_take]; omega
  obtain ⟨columns, _⟩ := layout_order writer
  by_cases long : 896 ≤ k
  · rw [(produced.fronted_take long (by omega)).accepted_iff,
      produced.validateColumns_take long (by omega), FilterInside, length, Reaches]
    constructor
    · rintro ⟨⟨zones, filter⟩, reaches, footer⟩
      refine ⟨⟨reaches, zones, filter⟩, fun inside => ?_⟩
      have passes := footer inside
      rwa [slice_take _ inside] at passes
    · rintro ⟨⟨reaches, zones, filter⟩, footer⟩
      refine ⟨⟨zones, filter⟩, reaches, fun inside => ?_⟩
      rw [slice_take _ inside]
      exact footer inside
  · refine ⟨fun accepted => absurd accepted (produced.short_refused (by omega) (by omega)),
      fun reaches => ?_⟩
    have ends := reaches.1.1
    omega

/-- The cut that is noticed. Up to four gibibytes the offsets in the header are those of the file,
and it is any cut before the end of the filter; behind that they are taken modulo `2 ^ 32`. -/
def CutNoticed (writer : SegmentWriter) (file : Bytes) (k : Nat) : Prop :=
  if file.length < 2 ^ 32 then
    k < bloomFilterOffset writer + (BloomFilterParams.forItems writer.rowCount).sizeBytes
  else ¬ Reaches writer k ∨ ((fileHeader writer).footerOffset.toNat + 128 ≤ k ∧
    ¬ FooterPasses writer (slice file (fileHeader writer).footerOffset.toNat 128))

theorem header_fields (order : layoutEnd writer < 2 ^ 32) :
    (fileHeader writer).zoneMapOffset.toNat = zoneMapOffset writer ∧
      (fileHeader writer).bloomFilterOffset.toNat = bloomFilterOffset writer ∧
      (fileHeader writer).bloomFilterSize.toNat =
        (BloomFilterParams.forItems writer.rowCount).sizeBytes ∧
      (fileHeader writer).footerOffset.toNat = footerOffset writer := by
  obtain ⟨_, zones, blooms, footers, ends⟩ := layout_order writer
  have word {value : Nat} (below : value < 2 ^ 32) : (UInt32.ofNat value).toNat = value := by
    rw [UInt32.toNat_ofNat', Nat.mod_eq_of_lt below]
  exact ⟨word (by omega), word (by omega), word (by omega), word (by omega)⟩

theorem quote_produced :
    ∃ fresh writer file, new 1 16 = .ok fresh ∧ fresh.addEvents [quoteEvent] = .ok writer ∧
      writer.writeToFile zeroed = .ok file ∧ Produced writer file ∧ file.length = 1984 ∧
        columnsEnd writer = 968 ∧
      zoneMapOffset writer = 1024 ∧ bloomFilterOffset writer = 1792 ∧
      (BloomFilterParams.forItems writer.rowCount).sizeBytes = 2 ∧ footerOffset writer = 1856 := by
  obtain ⟨fresh, writer, file, created, added, written⟩ := quote_written
  have holds := holds_of_addEvents created added
  have produced := produced_of_writeToFile holds written
  have columns : columnsEnd writer = 968 := by
    rw [columnsEnd_eq holds]
    decide
  have zones : zoneMapOffset writer = 1024 := by rw [zoneMapOffset, columns]; rfl
  have filter : bloomFilterOffset writer = 1792 := by rw [bloomFilterOffset, zones]; rfl
  have size : (BloomFilterParams.forItems writer.rowCount).sizeBytes = 2 := by
    rw [holds.rowCount]
    decide
  have footer : footerOffset writer = 1856 := by rw [footerOffset, filter, size]; rfl
  exact ⟨fresh, writer, file, created, added, written, produced,
    by rw [produced.wrote.length, layoutEnd, footer]; rfl, columns, zones, filter, size, footer⟩

theorem truncation_refused_iff {segmentId : UInt64} {maxRows : Nat} {fresh : SegmentWriter}
    {events : List CanonicalEvent} {memory : Allocator}
    (created : new segmentId maxRows = .ok fresh)
    (added : fresh.addEvents events = .ok writer)
    (written : writer.writeToFile memory = .ok file) {k : Nat}
    (cut : k < file.length) : openAndValidate (file.take k) ≠ .ok () ↔
      CutNoticed writer file k := by
  have produced := produced_of_writeToFile (holds_of_addEvents created added) written
  have length := produced.wrote.length
  have some := produced.filter
  obtain ⟨_, zones, blooms, footers, ends⟩ := layout_order writer
  rw [ne_eq, produced.take_accepted_iff cut, CutNoticed]
  split
  · rename_i short
    obtain ⟨zoneField, filterField, sizeField, footerField⟩ :=
      header_fields (show layoutEnd writer < 2 ^ 32 by omega)
    rw [Reaches, zoneField, filterField, sizeField, footerField]
    constructor
    · intro refused
      by_contra reaches
      exact refused ⟨⟨by omega, by omega, .inr (by omega)⟩, fun inside => by omega⟩
    · rintro before ⟨⟨_, _, reaches⟩, _⟩
      omega
  · rw [not_and_or, Classical.not_imp]

theorem truncation_refused_quote :
    ∃ fresh writer file, new 1 16 = .ok fresh ∧ fresh.addEvents [quoteEvent] = .ok writer ∧
      writer.writeToFile zeroed = .ok file ∧ 1000 < file.length ∧
        openAndValidate (file.take 1000) ≠ .ok () := by
  obtain ⟨fresh, writer, file, created, added, written, _, length, _, _, filter, size, _⟩ :=
    quote_produced
  refine ⟨fresh, writer, file, created, added, written, by omega, ?_⟩
  refine (truncation_refused_iff created added written (by omega)).mpr ?_
  rw [CutNoticed, if_pos (by omega), filter, size]
  omega

/-- Without its last byte the file has no footer to look at, and passes. -/
theorem truncation_accepted :
    ∃ fresh writer file, new 1 16 = .ok fresh ∧ fresh.addEvents [quoteEvent] = .ok writer ∧
      writer.writeToFile zeroed = .ok file ∧ file.length = 1984 ∧
        openAndValidate (file.take 1983) = .ok () := by
  obtain ⟨fresh, writer, file, created, added, written, produced, length, columns, zones,
    filter, size, footer⟩ :=
    quote_produced
  have whole := produced.wrote.length
  obtain ⟨zoneField, filterField, sizeField, footerField⟩ :=
    header_fields (show layoutEnd writer < 2 ^ 32 by omega)
  refine ⟨fresh, writer, file, created, added, written, length,
    (produced.take_accepted_iff (by omega)).mpr ?_⟩
  rw [Reaches, zoneField, filterField, sizeField, footerField]
  exact ⟨⟨by omega, by omega, .inr (by omega)⟩, fun inside => by omega⟩

theorem Produced.fronted (produced : Produced writer file) : Fronted writer file where
  long := by
    have inside := produced.columns_inside
    rw [columnsStart_eq] at inside
    omega
  header := produced.wrote.header
  table := produced.wrote.table

theorem Produced.front_changed (produced : Produced writer file) {pos : Nat}
    {byte : UInt8} (front : pos < 896)
    (differ : file[pos]? ≠ some byte) (reader : SegmentReader) :
    openFile (some (file.set pos byte)) ≠ .ok reader := by
  intro opened
  have long := produced.fronted.long
  obtain ⟨_, _, sealedHeader⟩ := readHeader_ok produced.fronted.readHeader
  have start : (fileHeader writer).descriptorOffset.toNat = 128 := rfl
  have table := produced.fronted.readDescriptors
  rw [start] at table
  obtain ⟨_, sealedTable⟩ := readDescriptors_ok (by omega) table
  obtain ⟨_, headed, listed, _, _⟩ := openFile_ok opened
  obtain ⟨_, found, sealedFound⟩ := readHeader_ok headed
  by_cases header : pos < 128
  · rw [slice_set_inside byte (Nat.zero_le pos), Nat.sub_zero] at sealedFound
    refine sealedHeader.broken (length_slice (by omega)) (by omega) ?_ sealedFound
    have same := @getElem?_slice file pos 0 128 (Nat.zero_le pos) (by omega)
    rw [Nat.sub_zero] at same
    rwa [same]
  · have header : reader.header = fileHeader writer := by
      rw [found, slice_set_outside byte (.inr (by omega)),
        show slice file 0 128 = _ from produced.wrote.header, SegmentHeader.ofBytes_toBytes]
    rw [header, start] at listed
    obtain ⟨_, each⟩ := readDescriptors_ok (by rw [List.length_set]; omega) listed
    have index : (pos - 128) / 64 < columnCount := by rw [columnCount]; omega
    have here := each _ index
    rw [slice_set_inside byte (by omega)] at here
    refine (sealedTable _ index).broken (length_slice (by omega)) (by omega) ?_ here
    rwa [getElem?_slice (by omega) (by omega)]

theorem Produced.fronted_set (produced : Produced writer file) {pos : Nat}
    (byte : UInt8) (behind : 896 ≤ pos) :
    Fronted writer (file.set pos byte) where
  long := by rw [List.length_set]; exact produced.fronted.long
  header := by rw [slice_set_outside byte (.inr (by omega))]; exact produced.wrote.header
  table := by rw [slice_set_outside byte (.inr (by omega))]; exact produced.wrote.table

theorem Produced.validateColumns_set (produced : Produced writer file) {pos : Nat}
    {byte : UInt8} (behind : 896 ≤ pos)
    (differ : file[pos]? ≠ some byte) :
    validateColumns (file.set pos byte) (sealedDescriptors writer) = .ok () ↔
      columnsEnd writer ≤ pos := by
  have small := produced.small
  have inside := produced.columns_inside
  constructor
  · intro validated
    by_contra before
    have ends : pos < columnsStart + (blocks (planned writer)).length := Nat.lt_of_not_le before
    obtain ⟨desc, member, broken⟩ := sealedFrom_changed differ writer.rowCount (planned writer)
      produced.wrote.columns inside small (by rw [columnsStart_eq]; omega) ends
    exact broken (checked_of_validateColumns _ validated desc member)
  · intro ends
    apply validateColumns_placed _ (by rw [List.length_set]; omega)
    apply sealed_placed _ (by rw [List.length_set]; omega) (by rw [List.length_set]; omega)
    rw [slice_set_outside byte (.inr ends)]
    exact produced.wrote.columns

/-- Whatever the length of the file, the parts the header points at lie in it. -/
theorem Produced.fields_inside (produced : Produced writer file) :
    (fileHeader writer).zoneMapOffset.toNat + 768 ≤ file.length ∧
      FilterInside file (fileHeader writer) ∧
      (fileHeader writer).footerOffset.toNat + 128 ≤ file.length := by
  have length := produced.wrote.length
  obtain ⟨_, zones, blooms, footers, ends⟩ := layout_order writer
  have word (value : Nat) : (UInt32.ofNat value).toNat ≤ value := by
    rw [UInt32.toNat_ofNat']
    exact Nat.mod_le _ _
  have zoneField : (fileHeader writer).zoneMapOffset.toNat ≤ zoneMapOffset writer := word _
  have filterField : (fileHeader writer).bloomFilterOffset.toNat ≤ bloomFilterOffset writer :=
    word _
  have sizeField : (fileHeader writer).bloomFilterSize.toNat ≤
      (BloomFilterParams.forItems writer.rowCount).sizeBytes :=
    word _
  have footerField : (fileHeader writer).footerOffset.toNat ≤ footerOffset writer := word _
  exact ⟨by omega, .inr (by omega), by omega⟩

theorem Produced.set_accepted_iff (produced : Produced writer file) {pos : Nat}
    {byte : UInt8} (behind : 896 ≤ pos)
    (differ : file[pos]? ≠ some byte) :
    openAndValidate (file.set pos byte) = .ok () ↔
      columnsEnd writer ≤ pos ∧
        FooterPasses writer (slice (file.set pos byte)
          (fileHeader writer).footerOffset.toNat 128) := by
  obtain ⟨zones, filter, footer⟩ := produced.fields_inside
  rw [(produced.fronted_set byte behind).accepted_iff, produced.validateColumns_set behind differ,
    FilterInside, List.length_set]
  exact ⟨fun ⟨_, ends, passes⟩ => ⟨ends, passes footer⟩, fun ⟨ends, passes⟩ =>
    ⟨⟨zones, filter⟩, ends, fun _ => passes⟩⟩

theorem Produced.set_answers (produced : Produced writer file) {pos : Nat} {byte : UInt8}
    (differ : file[pos]? ≠ some byte) : Answers (openAndValidate (file.set pos byte)) := by
  refine (openFile_answers _).bind fun reader opened => ?_
  by_cases front : pos < 896
  · exact absurd opened (produced.front_changed front differ reader)
  · have fronted := produced.fronted_set byte (Nat.le_of_not_lt front)
    obtain ⟨sameFile, sameHeader, sameTable⟩ := fronted.opened opened
    exact fronted.validate_answers produced.plain sameFile sameHeader sameTable

theorem fileFooter_passes (writer : SegmentWriter) :
    FooterPasses writer (fileFooter writer).toBytes := by
  have length : (fileFooter writer).toBytes.length = 128 := SegmentFooter.length_toBytes _
  have crc : (fileFooter writer).cleared.checksum = (fileFooter writer).footerCrc := by
    rw [SegmentFooter.checksum_cleared]
    exact SegmentFooter.checksum_withChecksum _
  refine ⟨?_, ?_, ?_, ?_⟩
  · rw [SegmentFooter.ofBytes_toBytes]
    rfl
  · rw [← SegmentFooter.checksum_ofBytes length, SegmentFooter.ofBytes_toBytes]
    exact crc
  · rw [SegmentFooter.ofBytes_toBytes]
    exact .inr rfl
  · rw [SegmentFooter.ofBytes_toBytes]
    exact .inr rfl

/-- The bytes of a segment file other than the padding: header, descriptors and columns follow each
other without a gap. -/
def CarriesData (writer : SegmentWriter) (pos : Nat) : Prop :=
  pos < columnsEnd writer ∨
    (zoneMapOffset writer ≤ pos ∧ pos < zoneMapOffset writer + ZoneMap.size * columnCount) ∨
    (bloomFilterOffset writer ≤ pos ∧
      pos < bloomFilterOffset writer + (BloomFilterParams.forItems writer.rowCount).sizeBytes) ∨
    (footerOffset writer ≤ pos ∧ pos < layoutEnd writer)

/-- The change that is noticed: in the header, the descriptors or the columns, or in the footer. The
footer of a file beyond four gibibytes is looked for in the wrong place. -/
def ChangeNoticed (writer : SegmentWriter) (file : Bytes) (pos : Nat) (byte : UInt8) : Prop :=
  pos < columnsEnd writer ∨
    if file.length < 2 ^ 32 then footerOffset writer ≤ pos
    else ¬ FooterPasses writer (slice (file.set pos byte)
      (fileHeader writer).footerOffset.toNat 128)

theorem corruption_detected_iff {segmentId : UInt64} {maxRows : Nat} {fresh : SegmentWriter}
    {events : List CanonicalEvent} {memory : Allocator}
    (created : new segmentId maxRows = .ok fresh)
    (added : fresh.addEvents events = .ok writer)
    (written : writer.writeToFile memory = .ok file) {pos : Nat}
    {byte : UInt8} (data : CarriesData writer pos) (differ : file[pos]? ≠ some byte) :
    (∃ status, openAndValidate (file.set pos byte) = .error (.status status)) ↔
      ChangeNoticed writer file pos byte := by
  have produced := produced_of_writeToFile (holds_of_addEvents created added) written
  have length := produced.wrote.length
  obtain ⟨front, zones, blooms, footers, ends⟩ := layout_order writer
  have refused : (∃ status, openAndValidate (file.set pos byte) = .error (.status status)) ↔
      ¬ openAndValidate (file.set pos byte) = .ok () := by
    rcases produced.set_answers differ with ⟨_, done⟩ | ⟨status, failed⟩
    · simp [done]
    · simp [failed]
  rw [refused]
  by_cases behind : 896 ≤ pos
  · rw [produced.set_accepted_iff behind differ, not_and_or, Nat.not_le, ChangeNoticed]
    split
    · rename_i short
      obtain ⟨_, _, _, footerField⟩ := header_fields (show layoutEnd writer < 2 ^ 32 by omega)
      rw [footerField]
      -- The footer stands behind the padding of the filter, so a change
      -- before it leaves it as it was.
      by_cases footer : footerOffset writer ≤ pos
      · have position : pos < footerOffset writer + 128 := by
          rcases data with early | early | early | late
          · omega
          · rw [ZoneMap.size, columnCount] at early
            omega
          · omega
          · omega
        have broken : ¬ FooterPasses writer (slice (file.set pos byte)
            (footerOffset writer) 128) := by
          rintro ⟨_, sealed, _⟩
          rw [slice_set_inside byte footer] at sealed
          have original : Sealed 124 [] (slice file (footerOffset writer) 128) := by
            rw [show slice file (footerOffset writer) 128 = _ from produced.wrote.footer]
            exact (fileFooter_passes writer).2.1
          refine original.broken (length_slice (by omega)) (by omega) ?_ sealed
          rwa [getElem?_slice footer position]
        simp [broken, footer]
      · have passes : FooterPasses writer (slice (file.set pos byte)
            (footerOffset writer) 128) := by
          rw [slice_set_outside byte (.inl (by omega)),
            show slice file (footerOffset writer) 128 = _ from
            produced.wrote.footer]
          exact fileFooter_passes writer
        simp [passes, footer]
    · rfl
  · have broken : ¬ openAndValidate (file.set pos byte) = .ok () := by
      intro accepted
      unfold openAndValidate at accepted
      cases opened : openFile (some (file.set pos byte)) with
      | error stop =>
        rw [opened, error_bind] at accepted
        cases accepted
      | ok reader => exact produced.front_changed (by omega) differ reader opened
    exact ⟨fun _ => .inl (by omega), fun _ => broken⟩

theorem corruption_detected_quote :
    ∃ fresh writer file byte, new 1 16 = .ok fresh ∧ fresh.addEvents [quoteEvent] = .ok writer ∧
      writer.writeToFile zeroed = .ok file ∧ CarriesData writer 900 ∧ file[900]? ≠ some byte ∧
      ∃ status, openAndValidate (file.set 900 byte) = .error (.status status) := by
  obtain ⟨fresh, writer, file, created, added, written, _, length, columns, _⟩ := quote_produced
  have differ : file[900]? ≠ some (file.getD 900 0 + 1) := by
    rw [List.getD_eq_getElem?_getD, List.getElem?_eq_getElem (by omega)]
    simp
  have data : CarriesData writer 900 := .inl (by omega)
  refine ⟨fresh, writer, file, _, created, added, written, data, differ, ?_⟩
  exact (corruption_detected_iff created added written data differ).mpr (.inl (by omega))

/-- The first byte of the first zone map. -/
theorem corruption_undetected :
    ∃ fresh writer file byte, new 1 16 = .ok fresh ∧ fresh.addEvents [quoteEvent] = .ok writer ∧
      writer.writeToFile zeroed = .ok file ∧ zoneMapOffset writer = 1024 ∧ CarriesData writer 1024 ∧
      file[1024]? ≠ some byte ∧ openAndValidate (file.set 1024 byte) = .ok () := by
  obtain ⟨fresh, writer, file, created, added, written, produced, length, columns, zones,
    filter, size, footer⟩ :=
    quote_produced
  have whole := produced.wrote.length
  have differ : file[1024]? ≠ some (file.getD 1024 0 + 1) := by
    rw [List.getD_eq_getElem?_getD, List.getElem?_eq_getElem (by omega)]
    simp
  obtain ⟨_, _, _, footerField⟩ := header_fields (show layoutEnd writer < 2 ^ 32 by omega)
  refine ⟨fresh, writer, file, _, created, added, written, zones, ?_, differ, ?_⟩
  · exact .inr (.inl ⟨by omega, by rw [zones, ZoneMap.size, columnCount]; omega⟩)
  · rw [produced.set_accepted_iff (by omega) differ, footerField,
      slice_set_outside _ (.inl (by omega)),
      show slice file (footerOffset writer) 128 = _ from produced.wrote.footer]
    exact ⟨by omega, fileFooter_passes writer⟩

end Written

end VectorTick.SegmentReader
