import VectorTick.Storage.SegmentRoundTrip
import VectorTick.Storage.WriterCalls

/-! What the statistics and the filter of a written segment say about its rows. -/

set_option autoImplicit false

namespace VectorTick.SegmentReader

open Foundation Codec Vts1 SegmentWriter

def columnValue (event : CanonicalEvent) : ColumnID → UInt64
  | .exchangeTsNs => event.exchangeTsNs
  | .receiveTsNs => event.receiveTsNs
  | .sequence => event.sequence
  | .instrumentId => event.instrumentId.toUInt64
  | .eventType => event.eventType.value.toUInt64
  | .side => event.side.value.toUInt64
  | .flags => event.flags.toUInt64
  | .priceTicks => event.priceTicks.toUInt64
  | .quantity => event.quantity.toUInt64
  | .venueId => event.venueId.toUInt64
  | .sourceId => event.sourceId.toUInt64
  | .tradeOrOrderId => event.tradeOrOrderId

/-- A value lies in the range recorded for a column; prices compare as signed words. -/
def Within (column : ColumnID) (low high value : UInt64) : Prop :=
  if column = .priceTicks then low.toInt64 ≤ value.toInt64 ∧ value.toInt64 ≤ high.toInt64
  else low ≤ value ∧ value ≤ high

/-- The columns whose range the writer follows. The vectors of the others are only zero-filled. -/
def tracked : ColumnID → Bool
  | .exchangeTsNs | .sequence | .instrumentId | .priceTicks | .quantity => true
  | _ => false

/-- The entries of the writer's `col_min` and `col_max` vectors. -/
def recordedMin (writer : SegmentWriter) : ColumnID → UInt64
  | .exchangeTsNs => writer.minTimestamp
  | .sequence => writer.minSequence
  | .instrumentId => writer.minInstrumentId
  | .priceTicks => writer.minPrice.toUInt64
  | .quantity => writer.minQuantity.toUInt64
  | _ => 0

def recordedMax (writer : SegmentWriter) : ColumnID → UInt64
  | .exchangeTsNs => writer.maxTimestamp
  | .sequence => writer.maxSequence
  | .instrumentId => writer.maxInstrumentId
  | .priceTicks => writer.maxPrice.toUInt64
  | .quantity => writer.maxQuantity.toUInt64
  | _ => 0

theorem planned_recorded (writer : SegmentWriter) (column : ColumnID) :
    ∃ source, (planned writer)[column.index]? = some source ∧
      source.plan.minValue = recordedMin writer column ∧
      source.plan.maxValue = recordedMax writer column := by
  cases column <;> exact ⟨_, rfl, rfl, rfl⟩

theorem within_recorded_iff {writer : SegmentWriter} {events : List CanonicalEvent}
    (exact : Exact writer events)
    {event : CanonicalEvent} (member : event ∈ events) (column : ColumnID) :
    Within column (recordedMin writer column) (recordedMax writer column)
    (columnValue event column) ↔
      tracked column = true ∨ columnValue event column = 0 := by
  have listed {T : Type} (field : CanonicalEvent → T) : field event ∈ events.map field :=
    List.mem_map_of_mem member
  have untracked {column : ColumnID} (unsigned : column ≠ .priceTicks)
      (idle : tracked column = false)
      (low : recordedMin writer column = 0) (high : recordedMax writer column = 0) :
      Within column (recordedMin writer column) (recordedMax writer column)
        (columnValue event column) ↔
        tracked column = true ∨ columnValue event column = 0 := by
    simp [Within, unsigned, idle, low, high, UInt64.le_zero_iff]
  cases column with
  | exchangeTsNs =>
    simpa [tracked, Within] using ⟨exact.minTimestamp.le (listed _),
      exact.maxTimestamp.le (listed _)⟩
  | sequence =>
    simpa [tracked, Within] using ⟨exact.minSequence.le (listed _), exact.maxSequence.le (listed _)⟩
  | instrumentId =>
    simpa [tracked, Within] using
      ⟨exact.minInstrumentId.le (listed fun event => event.instrumentId.toUInt64),
        exact.maxInstrumentId.le (listed fun event => event.instrumentId.toUInt64)⟩
  | priceTicks =>
    simpa [tracked, Within, recordedMin, recordedMax, columnValue] using
      ⟨exact.minPrice.le (listed _), exact.maxPrice.le (listed _)⟩
  | quantity =>
    have low : writer.minQuantity ≤ event.quantity := exact.minQuantity.le (listed _)
    have high : event.quantity ≤ writer.maxQuantity := exact.maxQuantity.le (listed _)
    simpa [tracked, Within, recordedMin, recordedMax, columnValue,
      UInt64.le_iff_toNat_le, UInt32.le_iff_toNat_le]
      using And.intro low high
  | receiveTsNs => exact untracked (by decide) rfl rfl rfl
  | eventType => exact untracked (by decide) rfl rfl rfl
  | side => exact untracked (by decide) rfl rfl rfl
  | flags => exact untracked (by decide) rfl rfl rfl
  | venueId => exact untracked (by decide) rfl rfl rfl
  | sourceId => exact untracked (by decide) rfl rfl rfl
  | tradeOrOrderId => exact untracked (by decide) rfl rfl rfl

theorem descriptorsFrom_recorded (rowCount : Nat) (columns : List PlannedColumn)
    (offset : Nat) {i : Nat}
    {source : PlannedColumn} (selected : columns[i]? = some source) :
    ∃ desc, (descriptorsFrom rowCount columns offset)[i]? = some desc ∧
      desc.minValue = source.plan.minValue ∧
      desc.maxValue = source.plan.maxValue := by
  induction columns generalizing offset i with
  | nil => cases selected
  | cons head rest ih =>
    cases i with
    | zero =>
      cases (List.getElem?_cons_zero.symm.trans selected : some head = some source)
      exact ⟨_, rfl, rfl, rfl⟩
    | succ i => exact ih _ (by simpa using selected)

theorem sealedFrom_eq_zipWith (rowCount : Nat) (columns : List PlannedColumn) (offset : Nat) :
    sealedFrom rowCount columns offset =
      List.zipWith (fun desc column => sealDescriptor desc column.block)
      (descriptorsFrom rowCount columns offset)
        columns := by
  induction columns generalizing offset with
  | nil => rfl
  | cons column rest ih => rw [sealedFrom, descriptorsFrom, List.zipWith_cons_cons, ih]

theorem sealedFrom_recorded (rowCount : Nat) (columns : List PlannedColumn) (offset : Nat) {i : Nat}
    {source : PlannedColumn} (selected : columns[i]? = some source) :
    ∃ desc, (sealedFrom rowCount columns offset)[i]? = some desc ∧
      desc.minValue = source.plan.minValue ∧
      desc.maxValue = source.plan.maxValue := by
  obtain ⟨desc, found, low, high⟩ := descriptorsFrom_recorded rowCount columns offset selected
  refine ⟨sealDescriptor desc source.block, ?_, low, high⟩
  rw [sealedFrom_eq_zipWith, List.getElem?_zipWith, found, selected]

section Written

variable {writer : SegmentWriter} {events : List CanonicalEvent} {file : Bytes}

theorem columnRange_written (wrote : FileOf writer file) {reader : SegmentReader}
    (opened : openFile (some file) = .ok reader) (column : ColumnID) :
    reader.columnMin column = recordedMin writer column ∧
      reader.columnMax column = recordedMax writer column := by
  obtain ⟨source, selected, low, high⟩ := planned_recorded writer column
  obtain ⟨desc, found, sameLow, sameHigh⟩ :=
    sealedFrom_recorded writer.rowCount (planned writer) columnsStart selected
  rw [columnMin, columnMax, opened_descriptors wrote opened, sealedDescriptors, found]
  exact ⟨sameLow.trans low, sameHigh.trans high⟩

theorem zoneRange_written (writer : SegmentWriter) (column : ColumnID) :
    ∃ zone, (fileZones writer)[column.index]? = some zone ∧
      zone.minValue = recordedMin writer column ∧
      zone.maxValue = recordedMax writer column := by
  obtain ⟨source, selected, low, high⟩ := planned_recorded writer column
  obtain ⟨desc, found, sameLow, sameHigh⟩ :=
    descriptorsFrom_recorded writer.rowCount (planned writer) columnsStart selected
  refine ⟨zoneMap writer.rowCount desc, ?_, sameLow.trans low, sameHigh.trans high⟩
  rw [fileZones, List.getElem?_map, found]
  rfl

/-- The recorded ranges of a file bound the rows: in the descriptors of any reader of the file, and
in the zone maps that stand where the writer put them. -/
structure RangesBound (writer : SegmentWriter) (file : Bytes)
    (events : List CanonicalEvent) : Prop where
  descriptors : ∀ reader, openFile (some file) = .ok reader → ∀ column, ∀ event ∈ events,
    Within column (reader.columnMin column) (reader.columnMax column) (columnValue event column)
  zoneMaps : ∃ zones, readZoneMaps file columnCount (zoneMapOffset writer) =
    .ok zones ∧ ∀ column : ColumnID,
    ∃ zone, zones[column.index]? = some zone ∧ ∀ event ∈ events,
      Within column zone.minValue zone.maxValue (columnValue event column)

theorem rangesBound_iff (wrote : FileOf writer file) (exact : Exact writer events) :
    RangesBound writer file events ↔
      ∀ event ∈ events, ∀ column, tracked column = false → columnValue event column = 0 := by
  constructor
  · intro bound event member column idle
    obtain ⟨zones, read, ranges⟩ := bound.zoneMaps
    rw [readZoneMaps_written wrote, Except.ok.injEq] at read
    subst read
    obtain ⟨zone, found, within⟩ := ranges column
    obtain ⟨written, foundWritten, low, high⟩ := zoneRange_written writer column
    rw [found, Option.some.injEq] at foundWritten
    subst foundWritten
    have inside := within event member
    rw [low, high, within_recorded_iff exact member, idle] at inside
    simpa using inside
  · intro zero
    have within : ∀ event ∈ events, ∀ column,
        Within column (recordedMin writer column) (recordedMax writer column)
          (columnValue event column) := by
      intro event member column
      rw [within_recorded_iff exact member]
      cases followed : tracked column with
      | true => exact .inl rfl
      | false => exact .inr (zero event member column followed)
    constructor
    · intro reader opened column event member
      rw [(columnRange_written wrote opened column).1, (columnRange_written wrote opened column).2]
      exact within event member column
    · refine ⟨fileZones writer, readZoneMaps_written wrote, fun column => ?_⟩
      obtain ⟨zone, found, low, high⟩ := zoneRange_written writer column
      refine ⟨zone, found, fun event member => ?_⟩
      rw [low, high]
      exact within event member column

end Written

/-- The recorded ranges bound every row in every column exactly if all rows are zero in the seven
columns whose range is not followed. The reader of a file that opens has these zone maps. -/
theorem ranges_bound_iff {segmentId : UInt64} {maxRows : Nat} {fresh writer : SegmentWriter}
    {events : List CanonicalEvent} {memory : Allocator} {file : Bytes}
    (created : new segmentId maxRows = .ok fresh)
    (added : fresh.addEvents events = .ok writer) (written : writer.writeToFile memory = .ok file) :
    (RangesBound writer file events ↔
      ∀ event ∈ events, ∀ column, tracked column = false → columnValue event column = 0) ∧
    (events.length ≤ SegmentConfig.maxRowsPerSegment → ∃ reader, openFile (some file) = .ok reader ∧
      readZoneMaps file columnCount (zoneMapOffset writer) = .ok reader.zoneMaps) := by
  obtain ⟨_, wrote, fits⟩ := fileOf_written (holds_of_addEvents created added) written
  refine ⟨rangesBound_iff wrote (exact_of_addEvents created added), fun rows => ?_⟩
  obtain ⟨reader, opened, _, _, _, zones, _⟩ := written_opens wrote (layoutEnd_small rows fits)
  exact ⟨reader, opened, by rw [zones, readZoneMaps_written wrote]⟩

theorem ranges_bound_quote :
    ∃ fresh writer file, new 1 16 = .ok fresh ∧ fresh.addEvents [quoteEvent] = .ok writer ∧
      writer.writeToFile zeroed = .ok file ∧
      (RangesBound writer file [quoteEvent] ↔
        ∀ event ∈ [quoteEvent], ∀ column, tracked column = false → columnValue event column = 0) ∧
      ([quoteEvent].length ≤ SegmentConfig.maxRowsPerSegment →
        ∃ reader, openFile (some file) = .ok reader ∧
        readZoneMaps file columnCount (zoneMapOffset writer) = .ok reader.zoneMaps) := by
  obtain ⟨fresh, writer, file, created, added, written⟩ := quote_written
  exact ⟨fresh, writer, file, created, added, written, ranges_bound_iff created added written⟩

/-- A quote received at 1001 is outside the range [0, 0] recorded for its receive time. -/
theorem ranges_missed :
    ¬ ∀ (segmentId : UInt64) (maxRows : Nat) (fresh writer : SegmentWriter)
    (events : List CanonicalEvent)
      (memory : Allocator) (file : Bytes), new segmentId maxRows = .ok fresh →
        fresh.addEvents events = .ok writer →
      writer.writeToFile memory = .ok file → RangesBound writer file events := by
  intro claimed
  obtain ⟨fresh, writer, file, created, added, written⟩ := quote_written
  have bound := claimed 1 16 fresh writer [quoteEvent] zeroed file created added written
  obtain ⟨_, wrote, _⟩ := fileOf_written (holds_of_addEvents created added) written
  have zero :=
    (rangesBound_iff wrote (exact_of_addEvents created added)).mp bound quoteEvent
    (by simp) .receiveTsNs rfl
  exact absurd zero (by decide)

theorem or_mask_eq_zero (byte added mask : UInt8) :
    (byte ||| added) &&& mask = 0 ↔ byte &&& mask = 0 ∧ added &&& mask = 0 := by
  have split : (byte ||| added) &&& mask = (byte &&& mask) ||| (added &&& mask) := by
    rw [← UInt8.toBitVec_inj]
    simp only [UInt8.toBitVec_and, UInt8.toBitVec_or, BitVec.and_or_distrib_right]
  rw [split, UInt8.or_eq_zero_iff]

theorem getD_setBit (filter : Bytes) (bit i : Nat) (inside : i < filter.length) :
    (setBit filter bit).getD i 0 =
      if bit / 8 = i then filter.getD i 0 ||| (1 <<< UInt8.ofNat (bit % 8))
        else filter.getD i 0 := by
  rw [setBit, List.getD_eq_getElem?_getD, List.getElem?_modify, List.getD_eq_getElem?_getD,
    List.getElem?_eq_getElem inside]
  split <;> rfl

theorem bitSet_setBit (filter : Bytes) {bit : Nat} (inside : bit / 8 < filter.length) :
    bitSet (setBit filter bit) bit = true := by
  have masks : ∀ place < 8, (1 <<< UInt8.ofNat place : UInt8) &&& (1 <<< UInt8.ofNat place) ≠
      0 := by decide
  rw [bitSet, getD_setBit filter bit _ inside, if_pos rfl,
    decide_eq_true_eq, ne_eq, or_mask_eq_zero]
  intro cleared
  exact masks (bit % 8) (Nat.mod_lt _ (by decide)) cleared.2

theorem bitSet_keeps {filter : Bytes} {bit : Nat} (set : bitSet filter bit = true) (other : Nat) :
    bitSet (setBit filter other) bit = true := by
  rw [bitSet, decide_eq_true_eq] at set ⊢
  by_cases inside : bit / 8 < filter.length
  · rw [getD_setBit filter other _ inside]
    split
    · intro cleared
      exact set ((or_mask_eq_zero ..).mp cleared).1
    · exact set
  · have outside : filter.getD (bit / 8) 0 = 0 := by
      rw [List.getD_eq_getElem?_getD, List.getElem?_eq_none (by omega), Option.getD_none]
    rw [outside] at set
    exact absurd UInt8.zero_and set

theorem bitSet_foldl (bits : List Nat) (filter : Bytes) {bit : Nat}
    (set : bit ∈ bits ∧ bit / 8 < filter.length ∨ bitSet filter bit = true) :
    bitSet (bits.foldl setBit filter) bit = true := by
  induction bits generalizing filter with
  | nil => simpa using set
  | cons first rest ih =>
    rw [List.foldl_cons]
    apply ih
    rcases set with ⟨member, inside⟩ | already
    · rcases List.mem_cons.mp member with rfl | later
      · exact .inr (bitSet_setBit filter inside)
      · exact .inl ⟨later, by rwa [setBit, List.length_modify]⟩
    · exact .inr (bitSet_keeps already first)

theorem bloomFilter_eq_foldl (params : BloomFilterParams) (instrumentIds : List UInt32) :
    SegmentWriter.bloomFilter params instrumentIds =
      (instrumentIds.flatMap fun instrumentId =>
        (List.range params.numHashes).map (bloomBit params instrumentId)).foldl
        setBit (List.replicate params.sizeBytes 0) := by
  rw [SegmentWriter.bloomFilter, List.foldl_flatMap]
  congr 1
  funext filter instrumentId
  rw [List.foldl_map]

theorem bitSet_bloomFilter {params : BloomFilterParams}
    (whole : params.numBits = params.sizeBytes * 8)
    (some : 0 < params.numBits) {instrumentIds : List UInt32} {instrumentId : UInt32}
    (member : instrumentId ∈ instrumentIds) {h : Nat} (probe : h < params.numHashes) :
    bitSet (SegmentWriter.bloomFilter params instrumentIds)
    (bloomBit params instrumentId h) = true := by
  have bound : bloomBit params instrumentId h < params.numBits := Nat.mod_lt _ some
  rw [bloomFilter_eq_foldl]
  apply bitSet_foldl
  refine .inl ⟨?_, ?_⟩
  · exact List.mem_flatMap.mpr
      ⟨instrumentId, member, List.mem_map.mpr ⟨h, List.mem_range.mpr probe, rfl⟩⟩
  · rw [List.length_replicate]
    omega

theorem roundUpBits_power (numBits fuel bits : Nat) :
    ∃ doublings, roundUpBits numBits fuel bits = bits * 2 ^ doublings := by
  induction fuel generalizing bits with
  | zero => exact ⟨0, by simp [roundUpBits]⟩
  | succ fuel ih =>
    rw [roundUpBits]
    split
    · obtain ⟨doublings, same⟩ := ih (bits * 2)
      exact ⟨doublings + 1, by rw [same, Nat.pow_succ, Nat.mul_assoc, Nat.mul_comm 2]⟩
    · exact ⟨0, by simp⟩

theorem forItems_whole {rows : Nat} (some : 0 < rows) (few : rows * 10 ≤ 2 ^ 64) :
    (BloomFilterParams.forItems rows).numBits = (BloomFilterParams.forItems rows).sizeBytes * 8 ∧
      0 < (BloomFilterParams.forItems rows).numBits := by
  have enough := roundUpBits_ge (rows * 10) 64 1 (by omega)
  obtain ⟨doublings, power⟩ := roundUpBits_power (rows * 10) 64 1
  change roundUpBits (rows * 10) 64 1 = roundUpBits (rows * 10) 64 1 / 8 * 8 ∧
    0 < roundUpBits (rows * 10) 64 1
  rw [Nat.one_mul] at power
  have many : 3 ≤ doublings := by
    by_contra fewer
    have small : 2 ^ doublings ≤ 2 ^ 2 := Nat.pow_le_pow_right (by decide) (by omega)
    omega
  obtain ⟨rest, rfl⟩ := Nat.exists_eq_add_of_le many
  rw [Nat.pow_add] at power
  omega

/-- The filter of a written segment admits every instrument in it. -/
theorem filter_admits {segmentId : UInt64} {maxRows : Nat} {fresh writer : SegmentWriter}
    {events : List CanonicalEvent} {memory : Allocator} {file : Bytes}
    (created : new segmentId maxRows = .ok fresh)
    (added : fresh.addEvents events = .ok writer)
    (rows : events.length ≤ SegmentConfig.maxRowsPerSegment)
    (written : writer.writeToFile memory = .ok file) :
    ∃ reader, openFile (some file) = .ok reader ∧
      ∀ event ∈ events, reader.mightContainInstrument event.instrumentId = true := by
  have holds := holds_of_addEvents created added
  obtain ⟨nonempty, wrote, fits⟩ := fileOf_written holds written
  obtain ⟨reader, opened, _, _, _, _, filter⟩ := written_opens wrote (layoutEnd_small rows fits)
  refine ⟨reader, opened, fun event member => ?_⟩
  have count : 0 < writer.rowCount := by
    rw [holds.rowCount]
    exact List.length_pos_iff.mpr nonempty
  have small : writer.rowCount * 10 ≤ 2 ^ 64 := by
    rw [holds.rowCount]
    rw [SegmentConfig.maxRowsPerSegment] at rows
    omega
  obtain ⟨whole, some⟩ := forItems_whole count small
  have length : reader.bloomFilter.length * 8 =
      (BloomFilterParams.forItems writer.rowCount).numBits := by
    rw [filter, fileFilter, length_bloomFilter, whole]
  have present : reader.bloomFilter ≠ [] := List.ne_nil_of_length_pos (by omega)
  rw [mightContainInstrument, if_neg present, length, List.all_eq_true]
  intro h probe
  rw [filter, fileFilter]
  apply bitSet_bloomFilter whole some _ (List.mem_range.mp probe)
  rw [holds.instrumentIds]
  exact List.mem_map_of_mem member

theorem filter_admits_quote :
    ∃ fresh writer file, new 1 16 = .ok fresh ∧ fresh.addEvents [quoteEvent] = .ok writer ∧
      writer.writeToFile zeroed = .ok file ∧
      ∃ reader, openFile (some file) = .ok reader ∧
        ∀ event ∈ [quoteEvent], reader.mightContainInstrument event.instrumentId = true := by
  obtain ⟨fresh, writer, file, created, added, written⟩ := quote_written
  exact ⟨fresh, writer, file, created, added, written,
    filter_admits created added (by decide) written⟩

end VectorTick.SegmentReader
