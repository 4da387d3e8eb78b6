import VectorTick.Storage.SegmentLayout

/-! When `write_to_file` stays inside its buffer.

The columns are checked against the size asked for as they are encoded. The zone maps, the filter
and the footer are not: if the columns fit and the rest does not fit the rounded block either,
the writer runs past its end.
-/

set_option autoImplicit false

namespace VectorTick.SegmentWriter

open Foundation Codec Vts1

theorem roundUpBits_ge (numBits fuel bits : Nat) (enough : numBits ≤ bits * 2 ^ fuel) :
    numBits ≤ roundUpBits numBits fuel bits := by
  induction fuel generalizing bits with
  | zero => simpa [roundUpBits] using enough
  | succ fuel ih =>
    rw [roundUpBits]
    split
    · apply ih
      rw [Nat.pow_succ] at enough
      nlinarith
    · omega

/-- The filter of a nonempty segment has at least one byte. -/
theorem sizeBytes_pos {rows : Nat} (some : 0 < rows) (bounded : rows < 2 ^ 58) :
    0 < (BloomFilterParams.forItems rows).sizeBytes := by
  have bits := roundUpBits_ge (rows * 10) 64 1 (by omega)
  change 0 < roundUpBits (rows * 10) 64 1 / 8
  omega

theorem storeEach_outside (pieces : List Bytes) {output : Bytes} {offset : Nat} (any : pieces ≠ [])
    (some : ∀ piece ∈ pieces, piece ≠ [])
    (outside : output.length < offset + pieces.flatten.length) :
    storeEach pieces output offset = .error .fault := by
  induction pieces generalizing output offset with
  | nil => exact absurd rfl any
  | cons piece rest ih =>
    rw [List.flatten_cons, List.length_append] at outside
    by_cases fits : offset + piece.length ≤ output.length
    · obtain ⟨middle, stored, wrote⟩ := store_inside Stop.fault _ _ _ fits
      have length := wrote.length
      have more : rest ≠ [] := by
        intro none
        simp only [none, List.flatten_nil, List.length_nil] at outside
        omega
      simp only [storeEach, storeTo, stored, bind, Except.bind]
      exact ih more (fun piece member => some piece (by simp [member])) (by omega)
    · have past := store_outside Stop.fault output offset _ (some piece (by simp)) (by omega)
      simp only [storeEach, storeTo, past, bind, Except.bind]

theorem writeTail_overrun {writer : SegmentWriter} {data : Bytes} (rows : 0 < writer.rowCount)
    (bounded : writer.rowCount < 2 ^ 58)
    (placed : slice data columnsStart (blocks (planned writer)).length = blocks (planned writer))
    (_columns : columnsEnd writer ≤ data.length) (overrun : data.length < layoutEnd writer)
    (small : data.length < 2 ^ 64) :
    writer.writeTail data (columnsEnd writer)
    (descriptorsFrom writer.rowCount (planned writer) columnsStart) =
      .error .fault := by
  obtain ⟨started, zones, blooms, footers, ends⟩ := layout_order writer
  have zoneLength := length_zonePieces writer
  have filterLength :=
    length_bloomFilter (BloomFilterParams.forItems writer.rowCount) writer.instrumentIds
  have filterSome := sizeBytes_pos rows bounded
  have footerLength : (fileFooter writer).toBytes.length = 128 := SegmentFooter.length_toBytes _
  by_cases filterFits : bloomFilterOffset writer +
    (BloomFilterParams.forItems writer.rowCount).sizeBytes ≤ data.length
  · obtain ⟨headed, parts, tail⟩ := writeTail_headed placed filterFits small
    have length := parts.length
    have past := store_outside Stop.fault headed (footerOffset writer) ((fileFooter writer).toBytes)
      (List.ne_nil_of_length_pos (by omega)) (by omega)
    rw [tail, storeTo, past]
    rfl
  · have offsets : bloomFilterOffset writer =
        align64 (zoneMapOffset writer + (zonePieces writer).flatten.length) := by
      rw [zoneLength]
      rfl
    unfold writeTail
    simp only [bind, Except.bind]
    rw [show (descriptorsFrom writer.rowCount (planned writer) columnsStart).map
      (fun desc => (zoneMap writer.rowCount desc).toBytes) = zonePieces writer from rfl,
      show align64 (columnsEnd writer) = zoneMapOffset writer from rfl]
    by_cases zonesFit : zoneMapOffset writer + (zonePieces writer).flatten.length ≤ data.length
    · obtain ⟨zoned, stored, wrote⟩ := storeEach_inside _ _ (zonePieces writer) zonesFit
      have length := wrote.length
      have past := store_outside Stop.fault zoned (bloomFilterOffset writer)
        (bloomFilter (BloomFilterParams.forItems writer.rowCount) writer.instrumentIds)
        (List.ne_nil_of_length_pos (by omega)) (by omega)
      rw [stored]
      simp only [← offsets, storeTo, past]
    · have pieces : ∀ piece ∈ zonePieces writer, piece ≠ [] := by
        intro piece member
        obtain ⟨desc, _, rfl⟩ := List.mem_map.mp member
        exact List.ne_nil_of_length_pos (by rw [ZoneMap.length_toBytes, ZoneMap.size]; decide)
      have any : zonePieces writer ≠ [] := by
        intro none
        rw [none] at zoneLength
        cases zoneLength
      rw [storeEach_outside (zonePieces writer) any pieces (by omega)]

/-- Everything `write_to_file` can do with a writer that holds events, by the sizes involved. -/
theorem writeToFile_cases {writer : SegmentWriter} {events : List CanonicalEvent}
    (holds : Holds writer events)
    (nonempty : events ≠ []) (memory : Allocator) :
    ((memory.alignedAlloc (blockSize events) = none ∨ bufferSize events < eventsColumnsEnd events) ∧
      ∃ status, writer.writeToFile memory = .error (.status status)) ∨
    (eventsColumnsEnd events ≤ bufferSize events ∧ blockSize events < eventsLayoutEnd events ∧
      writer.writeToFile memory = .error .fault) ∨
    (eventsLayoutEnd events ≤ blockSize events ∧
      ∃ file, writer.writeToFile memory = .ok file ∧ FileOf writer file) := by
  have rows : 0 < writer.rowCount := by
    rw [holds.rowCount]
    exact List.length_pos_iff.mpr nonempty
  have allocated := holds.allocated_rows
  rw [rowBytes] at allocated
  have bounded : writer.rowCount < 2 ^ 58 := by
    rw [holds.rowCount]
    omega
  obtain ⟨rounded, close⟩ := blockSize_bounds events
  have asked : bufferSize events = 5632 + 56 * events.length := rfl
  unfold writeToFile
  simp only [if_neg (by omega : ¬ writer.rowCount = 0), bind, Except.bind, estimatedSize_eq holds]
  cases found : memory.alignedAlloc (blockSize events) with
  | none =>
    rw [AlignedBuffer.allocate_none (by omega) found]
    exact .inl ⟨.inl rfl, _, rfl⟩
  | some block =>
    obtain ⟨buffer, allocation, same⟩ := AlignedBuffer.allocate_some (by omega) found
    have length : buffer.data.length = blockSize events := by
      rw [same, memory.length_alignedAlloc found]
    have small : buffer.data.length < 2 ^ 64 := by omega
    have roomy : Roomy (bufferSize events) (planned writer) columnsStart :=
      planned_roomy holds (by omega)
    have columnsLength : columnsStart + (blocks (planned writer)).length =
        eventsColumnsEnd events :=
      columnsEnd_eq holds
    have starts : columnsStart ≤ bufferSize events := by
      rw [columnsStart_eq]
      omega
    rw [allocation, ← plans_planned,
      show align64 (SegmentHeader.size + ColumnDescriptor.size * columnCount) =
      columnsStart from rfl]
    dsimp only
    by_cases columnsFit : eventsColumnsEnd events ≤ bufferSize events
    · obtain ⟨after, encoded, wrote⟩ :=
        encodeColumns_fits writer.rowCount (planned writer)
          (by omega : _ ≤ buffer.data.length) roomy (by omega)
      have afterLength := wrote.length
      have placed := wrote.slice_block (by omega)
      rw [encoded]
      simp only [show columnsStart + (blocks (planned writer)).length = columnsEnd writer from rfl]
      by_cases fits : eventsLayoutEnd events ≤ blockSize events
      · right; right
        exact ⟨fits, writeTail_fits placed (by rw [layoutEnd_eq holds]; omega) (by omega)⟩
      · right; left
        exact ⟨columnsFit, by omega, writeTail_overrun rows bounded placed (by
          rw [columnsEnd_eq holds]; omega)
          (by rw [layoutEnd_eq holds]; omega) (by omega)⟩
    · obtain ⟨status, failed⟩ := encodeColumns_short writer.rowCount (planned writer)
        (by omega : _ ≤ buffer.data.length) roomy starts (by omega)
      left
      rw [failed]
      exact ⟨.inr (by omega), status, rfl⟩

/-- What `write_to_file` hands over has the layout of a segment, of one row at least. -/
theorem fileOf_written {writer : SegmentWriter} {events : List CanonicalEvent}
    {memory : Allocator} {file : Bytes}
    (holds : Holds writer events) (written : writer.writeToFile memory = .ok file) :
    events ≠ [] ∧ FileOf writer file ∧ layoutEnd writer ≤ blockSize events := by
  by_cases nonempty : events = []
  · have rows : writer.rowCount = 0 := by rw [holds.rowCount, nonempty, List.length_nil]
    rw [writeToFile, if_pos rows] at written
    cases written
  · rcases writeToFile_cases holds nonempty memory with
      ⟨_, status, failed⟩ | ⟨_, _, faulted⟩ | ⟨fits, found, done, wrote⟩
    · rw [failed] at written
      cases written
    · rw [faulted] at written
      cases written
    · rw [done, Except.ok.injEq] at written
      subst written
      exact ⟨nonempty, wrote, by rwa [layoutEnd_eq holds]⟩

/-- Some memory for every size. -/
def zeroed : Allocator where
  alignedAlloc := fun size => some (List.replicate size 0)
  length_alignedAlloc := by
    intro size block found
    cases found
    exact List.length_replicate

/-- `write_to_file` writes inside its block, whatever memory it is given, exactly when the whole
segment fits the block or already its columns do not fit the buffer. -/
theorem writeToFile_inRange_iff {segmentId : UInt64} {maxRows : Nat} {fresh writer : SegmentWriter}
    {events : List CanonicalEvent} (created : new segmentId maxRows = .ok fresh)
    (added : fresh.addEvents events = .ok writer) (nonempty : events ≠ []) :
    (∀ memory : Allocator, InRange (writer.writeToFile memory)) ↔
      eventsLayoutEnd events ≤ blockSize events ∨ bufferSize events < eventsColumnsEnd events := by
  have holds := holds_of_addEvents created added
  constructor
  · intro safe
    by_contra unfit
    rcases writeToFile_cases holds nonempty zeroed with ⟨none | tight, _⟩ |
      ⟨_, _, faulted⟩ | ⟨fits, _⟩
    · cases none
    · exact unfit (.inr tight)
    · exact safe zeroed faulted
    · exact unfit (.inl fits)
  · intro fits memory
    rcases writeToFile_cases holds nonempty memory with ⟨_, status, failed⟩ |
      ⟨columns, overrun, _⟩ | ⟨_, file, done, _⟩
    · simp [InRange, failed]
    · omega
    · simp [InRange, done]

/-- One event, written to any memory. -/
def quoteEvent : CanonicalEvent where
  exchangeTsNs := 1000
  receiveTsNs := 1001
  sequence := 1
  instrumentId := 7
  eventType := .quote
  side := .bid
  flags := 0
  priceTicks := 100
  quantity := 10
  venueId := 1
  sourceId := 1
  tradeOrOrderId := 42

theorem writeToFile_inRange_quote :
    ∃ fresh writer, new 1 16 = .ok fresh ∧ fresh.addEvents [quoteEvent] = .ok writer ∧
      ∀ memory : Allocator, InRange (writer.writeToFile memory) := by
  obtain ⟨fresh, created⟩ : ∃ fresh, new 1 16 = .ok fresh := ⟨_, rfl⟩
  have rows := (new_holds created).1.rowCount
  have limit := (new_holds created).2.2.2
  obtain ⟨writer, added⟩ := addEvents_accepts fresh [quoteEvent] (by decide)
    (by rw [rows, limit]; decide)
  exact ⟨fresh, writer, created, added,
    (writeToFile_inRange_iff created added (by decide)).mpr (.inl (by decide))⟩

-- The rows step down by one in three columns, which costs ten bytes each, and alternate between
-- the ends of the range in the others.

def steepEvent (i : Nat) : CanonicalEvent where
  exchangeTsNs := UInt64.ofNat i
  receiveTsNs := UInt64.ofNat i
  sequence := UInt64.ofNat i
  instrumentId := if i % 2 = 0 then 0 else 16383
  eventType := .quote
  side := .bid
  flags := if i % 2 = 0 then 0 else 65535
  priceTicks := if i % 2 = 0 then Limits.maxPrice else -Limits.maxPrice
  quantity := if i % 2 = 0 then 0 else Limits.maxQuantity
  venueId := 0
  sourceId := 0
  tradeOrOrderId := 0

def steepEvents : Nat → List CanonicalEvent
  | 0 => []
  | count + 1 => steepEvent count :: steepEvents count

theorem length_steepEvents (count : Nat) : (steepEvents count).length = count := by
  induction count with
  | zero => rfl
  | succ count ih => rw [steepEvents, List.length_cons, ih]

theorem mem_steepEvents {count : Nat} {event : CanonicalEvent}
    (member : event ∈ steepEvents count) :
    ∃ i < count, event = steepEvent i := by
  induction count with
  | zero => cases member
  | succ count ih =>
    rcases List.mem_cons.mp member with first | later
    · exact ⟨count, by omega, first⟩
    · obtain ⟨i, below, same⟩ := ih later
      exact ⟨i, by omega, same⟩

theorem steepEvent_mem {i count : Nat} (below : i < count) : steepEvent i ∈ steepEvents count := by
  induction count with
  | zero => omega
  | succ count ih =>
    rw [steepEvents, List.mem_cons]
    by_cases first : i = count
    · exact .inl (by rw [first])
    · exact .inr (ih (by omega))

theorem steepEvent_valid {i : Nat} (small : i ≤ 4096) : Event.Valid (steepEvent i) := by
  have stamp : UInt64.ofNat i ≤ Limits.maxTimestamp := by
    rw [UInt64.le_iff_toNat_le, UInt64.toNat_ofNat', Nat.mod_eq_of_lt (by omega)]
    exact Nat.le_trans small (by decide)
  exact {
    eventType := by change EventType.quote.value ≤ EventType.heartbeat.value; decide
    side := .inr (by change Side.bid.value ≤ Side.ask.value; decide)
    exchangeTs := stamp
    receiveTs := stamp
    instrument := by simp only [steepEvent]; split <;> decide
    priceLow := by simp only [steepEvent]; split <;> decide
    priceHigh := by simp only [steepEvent]; split <;> decide
    quantity := by simp only [steepEvent]; split <;> decide
    venue := by change 0 < Limits.maxVenues; decide
    source := by change 0 < Limits.maxSources; decide }

theorem differences_steep {T : Type} [Sub T] (delta : T → Prop) (field : CanonicalEvent → T)
    (step : ∀ i, delta (field (steepEvent i) - field (steepEvent (i + 1)))) (count : Nat) :
    ∀ difference ∈ differences ((steepEvents count).map field), delta difference := by
  induction count with
  | zero => simp [steepEvents, differences]
  | succ count ih =>
    cases count with
    | zero => simp [steepEvents, differences]
    | succ count =>
      intro difference member
      simp only [steepEvents, List.map_cons, differences, List.mem_cons] at member ih
      rcases member with rfl | later
      · exact step count
      · exact ih difference later

theorem varIntsSize_const {deltas : List UInt64} {size : Nat}
    (each : ∀ delta ∈ deltas, (VarIntU.bytes delta).length = size) :
    varIntsSize deltas = size * deltas.length := by
  induction deltas with
  | nil => rfl
  | cons delta rest ih =>
    have tail := ih fun delta member => each delta (by simp [member])
    rw [varIntsSize] at tail ⊢
    rw [List.map_cons, List.sum_cons, tail, each delta (by simp), List.length_cons]
    ring

theorem ofNat_sub_succ (i : Nat) : UInt64.ofNat i - UInt64.ofNat (i + 1) = -1 := by
  rw [UInt64.ofNat_add]
  grind

theorem deltaSize_steep (field : CanonicalEvent → UInt64)
    (stamp : ∀ i, field (steepEvent i) = UInt64.ofNat i)
    (count : Nat) : deltaSize ((steepEvents (count + 1)).map field) = 8 + 10 * count := by
  have each : ∀ delta ∈ differences ((steepEvents (count + 1)).map field),
      (VarIntU.bytes delta).length = 10 := by
    refine differences_steep (fun value => (VarIntU.bytes value).length = 10) field ?_ (count + 1)
    intro i
    rw [stamp, stamp, ofNat_sub_succ]
    decide
  rw [deltaSize, if_neg (by simp [steepEvents]), varIntsSize_const each, length_differences,
    List.length_map, length_steepEvents, Nat.add_sub_cancel]

theorem signedSize_steep (count : Nat) :
    signedSize ((steepEvents (count + 1)).map (·.priceTicks)) = 8 + 6 * count := by
  have each : ∀ delta ∈
      (differences ((steepEvents (count + 1)).map (·.priceTicks))).map ZigZag.encode,
      (VarIntU.bytes delta).length = 6 := by
    intro delta member
    obtain ⟨difference, inside, rfl⟩ := List.mem_map.mp member
    refine differences_steep (fun value => (VarIntU.bytes (ZigZag.encode value)).length = 6)
      (·.priceTicks)
      ?_ (count + 1) difference inside
    intro i
    by_cases even : i % 2 = 0
    · have odd : (i + 1) % 2 = 1 := by omega
      simp only [steepEvent, even, odd]
      decide
    · have even : (i + 1) % 2 = 0 := by omega
      simp only [steepEvent, show i % 2 = 1 by omega, even]
      decide
  rw [signedSize, if_neg (by simp [steepEvents]), varIntsSize_const each, List.length_map,
    length_differences, List.length_map, length_steepEvents, Nat.add_sub_cancel]

/-- A column that takes both ends of a range and nothing beyond them. -/
theorem wordSize_between (high : UInt32) {values : List UInt32}
    (low : 0 ∈ values) (top : high ∈ values)
    (bound : ∀ value ∈ values, value ≤ high) :
    wordSize values =
      5 + BitPackU32.maxEncodedSize values.length (BitPackU32.bitsRequired high) := by
  cases values with
  | nil => cases low
  | cons first rest =>
    have least : minElement first rest = 0 :=
      UInt32.le_antisymm ((minElement_spec first rest).2 0 low) (UInt32.zero_le)
    have greatest : maxElement first rest = high :=
      UInt32.le_antisymm (bound _ (maxElement_spec first rest).1)
        ((maxElement_spec first rest).2 high top)
    rw [wordSize, least, greatest, UInt32.sub_zero, List.length_cons]

theorem wordSize_steep (field : CanonicalEvent → UInt32) (high : UInt32)
    (ends : ∀ i, field (steepEvent i) = if i % 2 = 0 then 0 else high)
    {count : Nat} (two : 2 ≤ count) :
    wordSize ((steepEvents count).map field) =
      5 + BitPackU32.maxEncodedSize count (BitPackU32.bitsRequired high) := by
  have size : ((steepEvents count).map field).length = count := by
    rw [List.length_map, length_steepEvents]
  rw [wordSize_between high, size]
  · exact List.mem_map.mpr ⟨steepEvent 0, steepEvent_mem (by omega), ends 0⟩
  · exact List.mem_map.mpr ⟨steepEvent 1, steepEvent_mem (by omega), ends 1⟩
  · intro value member
    obtain ⟨event, inside, rfl⟩ := List.mem_map.mp member
    obtain ⟨i, _, rfl⟩ := mem_steepEvents inside
    rw [ends]
    split
    · exact UInt32.zero_le
    · exact UInt32.le_refl high

theorem repeats_replicate (value : UInt8) (limit count : Nat) :
    RLE.repeats value limit (List.replicate count value) = min limit count := by
  induction limit generalizing count with
  | zero => simp [RLE.repeats]
  | succ limit ih =>
    cases count with
    | zero => simp [RLE.repeats]
    | succ count =>
      rw [List.replicate_succ, RLE.repeats, if_pos rfl, ih]
      omega

theorem rleSize_replicate (value : UInt8) {count : Nat} (four : 4 ≤ count) (short : count ≤ 32767) :
    rleSize (List.replicate count value) = 3 := by
  obtain ⟨rest, rfl⟩ : ∃ rest, count = rest + 1 := ⟨count - 1, by omega⟩
  have run : RLE.runLength value (List.replicate rest value) = rest + 1 := by
    rw [RLE.runLength, repeats_replicate, RLE.maxRunLength]
    omega
  have token : RLE.nextToken value (List.replicate rest value) = .run (rest + 1) value := by
    rw [RLE.nextToken, run, if_pos (by omega)]
  have last : (value :: List.replicate rest value).drop (rest + 1) = [] := by
    apply List.drop_eq_nil_of_le
    simp
  rw [rleSize, RLE.bytes, List.length_replicate, List.replicate_succ, RLE.tokens, token,
    RLE.Token.values, List.length_replicate, last]
  cases rest <;> simp [RLE.tokens, RLE.stream, RLE.Token.bytes, Element.byte]

theorem rleSize_steep (field : CanonicalEvent → UInt8) (value : UInt8)
    (same : ∀ i, field (steepEvent i) = value)
    {count : Nat} (four : 4 ≤ count) (short : count ≤ 32767) :
    rleSize ((steepEvents count).map field) = 3 := by
  have constant : (steepEvents count).map field = List.replicate count value := by
    rw [List.eq_replicate_iff]
    refine ⟨by rw [List.length_map, length_steepEvents], ?_⟩
    intro found member
    obtain ⟨event, inside, rfl⟩ := List.mem_map.mp member
    obtain ⟨i, _, rfl⟩ := mem_steepEvents inside
    exact same i
  rw [constant, rleSize_replicate value four short]

theorem columnBytes_steep {count : Nat} (four : 4 ≤ count + 1) (short : count + 1 ≤ 32767) :
    columnBytes (steepEvents (count + 1)) = 3 * (8 + 10 * count) +
      (5 + BitPackU32.maxEncodedSize (count + 1) (BitPackU32.bitsRequired 16383)) + 6 +
      (5 + BitPackU32.maxEncodedSize (count + 1) (BitPackU32.bitsRequired 65535)) +
        (8 + 6 * count) +
      (5 + BitPackU32.maxEncodedSize (count + 1) (BitPackU32.bitsRequired Limits.maxQuantity)) +
        12 * (count + 1) := by
  have exchange := deltaSize_steep (·.exchangeTsNs) (fun _ => rfl) count
  have receive := deltaSize_steep (·.receiveTsNs) (fun _ => rfl) count
  have sequence := deltaSize_steep (·.sequence) (fun _ => rfl) count
  have instrument := wordSize_steep (·.instrumentId) 16383 (fun _ => rfl)
    (by omega : 2 ≤ count + 1)
  have kinds := rleSize_steep (·.eventType.value) 0 (fun _ => rfl) four short
  have sides := rleSize_steep (·.side.value) 0 (fun _ => rfl) four short
  have flags := wordSize_steep (·.flags.toUInt32) 65535
    (fun i => by simp only [steepEvent]; split <;> rfl) (by omega : 2 ≤ count + 1)
  have quantity := wordSize_steep (·.quantity) Limits.maxQuantity (fun _ => rfl)
    (by omega : 2 ≤ count + 1)
  rw [columnBytes, exchange, receive, sequence, instrument, kinds, sides, flags,
    signedSize_steep count, quantity, length_steepEvents]
  omega

theorem steepEvents_sizes {count : Nat} (size : count = 3276) :
    eventsColumnsEnd (steepEvents (count + 1)) = 182787 ∧
      blockSize (steepEvents (count + 1)) = 189184 ∧
      eventsLayoutEnd (steepEvents (count + 1)) = 191936 := by
  have columns : eventsColumnsEnd (steepEvents (count + 1)) = 182787 := by
    rw [eventsColumnsEnd, columnBytes_steep (by omega) (by omega), size]
    decide
  refine ⟨columns, ?_, ?_⟩
  · rw [blockSize, bufferSize, length_steepEvents, size]
    rfl
  · rw [eventsLayoutEnd, columns, length_steepEvents, size]
    decide

theorem writeToFile_overruns :
    ¬ ∀ (segmentId : UInt64) (maxRows : Nat) (fresh writer : SegmentWriter)
    (events : List CanonicalEvent)
        (memory : Allocator), new segmentId maxRows = .ok fresh →
          fresh.addEvents events = .ok writer → events ≠ [] →
        InRange (writer.writeToFile memory) := by
  intro claimed
  obtain ⟨fresh, created⟩ : ∃ fresh, new 1 65536 = .ok fresh := ⟨_, rfl⟩
  have rows := (new_holds created).1.rowCount
  have limit := (new_holds created).2.2.2
  -- The number of rows is kept behind an equation, so that the list is not unfolded.
  obtain ⟨count, size⟩ : ∃ count : Nat, count = 3276 := ⟨_, rfl⟩
  have valid : ∀ event ∈ steepEvents (count + 1), Event.validate event = .ok () := by
    intro event member
    obtain ⟨i, below, rfl⟩ := mem_steepEvents member
    exact Event.validate_of_valid (steepEvent_valid (by omega))
  obtain ⟨writer, added⟩ := addEvents_accepts fresh _ valid
    (by rw [rows, limit, length_steepEvents, List.length_nil]; omega)
  have nonempty : steepEvents (count + 1) ≠ [] :=
    List.ne_nil_of_length_pos (by rw [length_steepEvents]; omega)
  obtain ⟨columns, block, layout⟩ := steepEvents_sizes size
  obtain ⟨_, close⟩ := blockSize_bounds (steepEvents (count + 1))
  rcases writeToFile_cases (holds_of_addEvents created added) nonempty zeroed with
    ⟨none | tight, _⟩ | ⟨_, _, faulted⟩ | ⟨fits, _⟩
  · cases none
  · omega
  · exact claimed 1 65536 fresh writer _ zeroed created added nonempty faulted
  · omega

end VectorTick.SegmentWriter
