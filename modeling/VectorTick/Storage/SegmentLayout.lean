import VectorTick.Storage.WriterState

/-! Where the writer puts what.

Each column encoder has a block: the bytes it leaves when they fit. An encoder that emits its
block either appends exactly that or stops with a status; the layout of a segment is the
blocks in order, between the tables in front and the zone maps, filter and footer behind.
-/

set_option autoImplicit false

namespace VectorTick.SegmentWriter

open Foundation Codec Vts1

/-- `encode` appends `block` or fails, provided `reserve` bytes are left of the size it is told. -/
structure Emits (encode : Bytes → Nat → Nat → Except Stop (Bytes × Nat)) (block : Bytes)
    (reserve : Nat) : Prop where
  fits : ∀ {output : Bytes} {offset outputSize : Nat}, outputSize ≤ output.length →
    offset + reserve ≤ outputSize → offset + block.length ≤ outputSize →
    ∃ after, encode output offset outputSize = .ok (after, offset + block.length) ∧
      Extends output after offset block
  short : ∀ {output : Bytes} {offset outputSize : Nat}, outputSize ≤ output.length →
    offset + reserve ≤ outputSize → outputSize < offset + block.length →
    ∃ status, encode output offset outputSize = .error (.status status)

theorem encodeRaw_emits {T : Type} (element : Element T) (message : String) (values : List T) :
    Emits (encodeRaw element message values) (element.putMany values) 0 where
  fits := by
    intro output offset outputSize inside _ room
    obtain ⟨after, stored, wrote⟩ :=
      store_inside Stop.fault output offset (element.putMany values) (by omega)
    rw [element.length_putMany] at room
    refine ⟨after, ?_, wrote⟩
    simp only [encodeRaw, if_neg (Nat.not_lt.mpr room), storeTo, stored, element.length_putMany,
      bind, Except.bind, pure, Except.pure]
  short := by
    intro output offset outputSize _ _ tight
    rw [element.length_putMany] at tight
    exact ⟨⟨.bufferTooSmall, message⟩, by simp [encodeRaw, tight, failWith, bind, Except.bind]⟩

def varInts (deltas : List UInt64) : Bytes := deltas.flatMap VarIntU.bytes

theorem varInts_cons (delta : UInt64) (rest : List UInt64) :
    varInts (delta :: rest) = VarIntU.bytes delta ++ varInts rest := by
  simp [varInts]

theorem encodeDeltas_emits (message : String) (deltas : List UInt64) :
    Emits (fun output offset outputSize => encodeDeltas message outputSize deltas output offset)
    (varInts deltas) 0 := by
  induction deltas with
  | nil =>
    refine ⟨fun _ _ _ => ⟨_, rfl, Extends.refl _ _⟩, fun _ _ tight => ?_⟩
    simp only [varInts, List.flatMap_nil, List.length_nil] at tight
    omega
  | cons delta rest ih =>
    constructor
    · intro output offset outputSize inside _ room
      rw [varInts_cons, List.length_append] at room
      obtain ⟨middle, stored, wrote⟩ :=
        store_inside Stop.fault output offset (VarIntU.bytes delta) (by omega)
      have some := VarIntU.length_bytes_pos delta
      have length := wrote.length
      obtain ⟨after, loop, more⟩ :=
        @Emits.fits _ _ _ ih middle (offset + (VarIntU.bytes delta).length) outputSize
        (by omega) (by omega) (by omega)
      refine ⟨after, ?_, ?_⟩
      · simp only [encodeDeltas,
          VarIntU.encode_fits (by omega : (VarIntU.bytes delta).length ≤ outputSize - offset),
          storeTo, stored, bind, Except.bind,
          if_neg (by omega : ¬ (VarIntU.bytes delta).length = 0), loop, varInts_cons,
          List.length_append, Nat.add_assoc]
      · rw [varInts_cons]
        exact wrote.trans more
    · intro output offset outputSize inside start tight
      rw [varInts_cons, List.length_append] at tight
      by_cases first : (VarIntU.bytes delta).length ≤ outputSize - offset
      · obtain ⟨middle, stored, wrote⟩ :=
          store_inside Stop.fault output offset (VarIntU.bytes delta) (by omega)
        have some := VarIntU.length_bytes_pos delta
        have length := wrote.length
        obtain ⟨status, loop⟩ :=
          @Emits.short _ _ _ ih middle (offset + (VarIntU.bytes delta).length) outputSize
          (by omega) (by omega) (by omega)
        refine ⟨status, ?_⟩
        simp only [encodeDeltas, VarIntU.encode_fits first, storeTo, stored, bind, Except.bind,
          if_neg (by omega : ¬ (VarIntU.bytes delta).length = 0), loop]
      · have part : ((VarIntU.bytes delta).take (outputSize - offset)).length =
            outputSize - offset := by
          rw [List.length_take]
          omega
        obtain ⟨middle, stored, _⟩ := store_inside Stop.fault output offset
          ((VarIntU.bytes delta).take (outputSize - offset)) (by omega)
        refine ⟨⟨.bufferTooSmall, message⟩, ?_⟩
        simp only [encodeDeltas, VarIntU.encode_fails (Nat.lt_of_not_le first), storeTo, stored,
          bind, Except.bind, if_true, failWith]

theorem encodeDelta_emits (message : String) (first : UInt64) (deltas : List UInt64) :
    Emits (encodeDelta message first deltas) (u64 first ++ varInts deltas) 0 where
  fits := by
    intro output offset outputSize inside _ room
    rw [List.length_append, length_u64] at room
    obtain ⟨middle, stored, wrote⟩ := store_inside Stop.fault output offset (u64 first)
      (by rw [length_u64]; omega)
    have length := wrote.length
    obtain ⟨after, loop, more⟩ :=
      @Emits.fits _ _ _ (encodeDeltas_emits message deltas) middle (offset + 8) outputSize
      (by omega) (by omega) (by omega)
    refine ⟨after, ?_, wrote.trans (by rwa [length_u64])⟩
    simp only [encodeDelta, if_neg (by omega : ¬ offset + 8 > outputSize), storeTo, stored, bind,
      Except.bind, loop, List.length_append, length_u64, Nat.add_assoc]
  short := by
    intro output offset outputSize inside _ tight
    rw [List.length_append, length_u64] at tight
    by_cases word : offset + 8 > outputSize
    · exact ⟨⟨.bufferTooSmall, "Buffer too small"⟩, by simp [encodeDelta, word,
        failWith, bind, Except.bind]⟩
    · obtain ⟨middle, stored, wrote⟩ :=
        store_inside Stop.fault output offset (u64 first) (by rw [length_u64]; omega)
      have length := wrote.length
      obtain ⟨status, loop⟩ :=
        @Emits.short _ _ _ (encodeDeltas_emits message deltas) middle (offset + 8) outputSize
        (by omega) (by omega) (by omega)
      refine ⟨status, ?_⟩
      simp only [encodeDelta, if_neg word, storeTo, stored, bind, Except.bind, loop]

theorem min_cases (a b : UInt32) : (min a b = a ∧ a ≤ b) ∨ (min a b = b ∧ b ≤ a) := by
  by_cases le : a ≤ b
  · exact .inl ⟨if_pos le, le⟩
  · exact .inr ⟨if_neg le, UInt32.le_of_lt (UInt32.not_le.mp le)⟩

theorem max_cases (a b : UInt32) : (max a b = b ∧ a ≤ b) ∨ (max a b = a ∧ b ≤ a) := by
  by_cases le : a ≤ b
  · exact .inl ⟨if_pos le, le⟩
  · exact .inr ⟨if_neg le, UInt32.le_of_lt (UInt32.not_le.mp le)⟩

/-- The smallest element of a nonempty list is one of its elements and bounds the others. -/
theorem minElement_spec (first : UInt32) (rest : List UInt32) :
    minElement first rest ∈ first :: rest ∧
      ∀ value ∈ first :: rest, minElement first rest ≤ value := by
  induction rest generalizing first with
  | nil => simp [minElement]
  | cons second rest ih =>
    obtain ⟨member, bound⟩ := ih (min first second)
    have least := bound (min first second) (by simp)
    rw [show minElement first (second :: rest) = minElement (min first second) rest from rfl]
    constructor
    · rcases min_cases first second with ⟨same, _⟩ | ⟨same, _⟩ <;> rw [same] at member ⊢ <;> grind
    · intro value selected
      rcases min_cases first second with ⟨same, order⟩ |
        ⟨same, order⟩ <;> rw [same] at least bound ⊢ <;> grind

theorem maxElement_spec (first : UInt32) (rest : List UInt32) :
    maxElement first rest ∈ first :: rest ∧ ∀ value ∈ first :: rest, value ≤
      maxElement first rest := by
  induction rest generalizing first with
  | nil => simp [maxElement]
  | cons second rest ih =>
    obtain ⟨member, bound⟩ := ih (max first second)
    have greatest := bound (max first second) (by simp)
    rw [show maxElement first (second :: rest) = maxElement (max first second) rest from rfl]
    constructor
    · rcases max_cases first second with ⟨same, _⟩ | ⟨same, _⟩ <;> rw [same] at member ⊢ <;> grind
    · intro value selected
      rcases max_cases first second with ⟨same, order⟩ |
        ⟨same, order⟩ <;> rw [same] at greatest bound ⊢ <;> grind

/-- Reference, width and packed offsets of a nonempty column. -/
def packedBlock (first : UInt32) (rest : List UInt32) : Bytes :=
  let minVal := minElement first rest
  let bits := BitPackU32.bitsRequired (maxElement first rest - minVal)
  u32 minVal ++
    ([UInt8.ofNat bits] ++ BitPackU32.bytes ((first :: rest).map fun value => value - minVal) bits)

theorem length_packedBlock (first : UInt32) (rest : List UInt32) :
    (packedBlock first rest).length = 5 + BitPackU32.maxEncodedSize (rest.length + 1)
      (BitPackU32.bitsRequired (maxElement first rest - minElement first rest)) := by
  simp only [packedBlock, List.length_append, length_u32, BitPackU32.length_bytes, List.length_map,
    List.length_cons, List.length_nil]
  omega

theorem encodeBitPacked_emits (first : UInt32) (rest : List UInt32) :
    Emits (encodeBitPacked first rest) (packedBlock first rest) 0 where
  fits := by
    intro output offset outputSize inside _ room
    rw [length_packedBlock] at room
    obtain ⟨one, storedOne, wroteOne⟩ :=
      store_inside Stop.fault output offset (u32 (minElement first rest))
      (by rw [length_u32]; omega)
    have lengthOne := wroteOne.length
    obtain ⟨two, storedTwo, wroteTwo⟩ := store_inside Stop.fault one (offset + 4)
      [UInt8.ofNat (BitPackU32.bitsRequired (maxElement first rest - minElement first rest))]
      (by simp only [List.length_cons, List.length_nil]; omega)
    have lengthTwo := wroteTwo.length
    obtain ⟨three, storedThree, wroteThree⟩ := store_inside Stop.fault two (offset + 4 + 1)
      (BitPackU32.bytes ((first :: rest).map fun value => value - minElement first rest)
        (BitPackU32.bitsRequired (maxElement first rest - minElement first rest)))
      (by simp only [BitPackU32.length_bytes, List.length_map, List.length_cons]; omega)
    refine ⟨three, ?_, wroteOne.trans (by rw [length_u32]; exact wroteTwo.trans wroteThree)⟩
    have packed :=
      BitPackU32.encode_fits ((first :: rest).map fun value => value - minElement first rest)
      (outputSize - (offset + 4 + 1))
      (BitPackU32.bitsRequired_pos (maxElement first rest - minElement first rest))
        (BitPackU32.bitsRequired_le _)
      (by simp only [List.length_map, List.length_cons]; omega)
    simp only [encodeBitPacked, if_neg (by omega : ¬ offset + 4 > outputSize),
      if_neg (by omega : ¬ offset + 4 + 1 > outputSize), storeTo, storedOne, storedTwo, packed,
      storedThree, bind, Except.bind, pure, Except.pure, length_packedBlock]
    simp only [List.length_map, List.length_cons]
    rw [if_neg (by omega)]
    simp only [Nat.add_assoc, Nat.reduceAdd]
  short := by
    intro output offset outputSize inside _ tight
    rw [length_packedBlock] at tight
    refine ⟨⟨.bufferTooSmall, "Buffer too small"⟩, ?_⟩
    by_cases reference : offset + 4 > outputSize
    · simp [encodeBitPacked, reference, failWith, bind, Except.bind]
    · obtain ⟨one, storedOne, wroteOne⟩ :=
        store_inside Stop.fault output offset (u32 (minElement first rest))
        (by rw [length_u32]; omega)
      have lengthOne := wroteOne.length
      by_cases width : offset + 4 + 1 > outputSize
      · simp only [encodeBitPacked, if_neg reference, if_pos width, storeTo, storedOne,
          bind, Except.bind, failWith]
      · obtain ⟨two, storedTwo, _⟩ := store_inside Stop.fault one (offset + 4)
          [UInt8.ofNat (BitPackU32.bitsRequired (maxElement first rest - minElement first rest))]
          (by simp only [List.length_cons, List.length_nil]; omega)
        simp only [encodeBitPacked, if_neg reference, if_neg width, storeTo, storedOne, storedTwo,
          bind, Except.bind, List.length_map, List.length_cons]
        rw [if_pos (by omega)]
        rfl

def deltaBlock : List UInt64 → Bytes
  | [] => []
  | first :: rest => u64 first ++ varInts (differences (first :: rest))

def signedBlock : List Int64 → Bytes
  | [] => []
  | first :: rest => u64 first.toUInt64 ++ varInts ((differences (first :: rest)).map ZigZag.encode)

def wordBlock : List UInt32 → Bytes
  | [] => []
  | first :: rest => packedBlock first rest

/-- An encoder called on no values leaves the buffer alone. -/
theorem emits_nothing {encode : Bytes → Nat → Nat → Except Stop (Bytes × Nat)} (reserve : Nat)
    (idle : ∀ output offset outputSize, encode output offset outputSize = .ok (output, offset)) :
    Emits encode [] reserve where
  fits := fun _ _ _ => ⟨_, idle _ _ _, Extends.refl _ _⟩
  short := by
    intro output offset outputSize _ room tight
    simp only [List.length_nil] at tight
    omega

theorem encodeColumnU64_delta_emits (values : List UInt64) :
    Emits (encodeColumnU64 values .delta) (deltaBlock values) 0 := by
  cases values with
  | nil => exact emits_nothing 0 fun _ _ _ => rfl
  | cons first rest =>
    exact encodeDelta_emits "Buffer too small for delta" first (differences (first :: rest))

theorem encodeColumnU64_raw_emits (values : List UInt64) :
    Emits (encodeColumnU64 values .raw) (Element.word64.putMany values) 0 := by
  cases values with
  | nil => exact emits_nothing 0 fun _ _ _ => rfl
  | cons first rest =>
    exact encodeRaw_emits Element.word64 "Buffer too small for column" (first :: rest)

theorem encodeColumnI64_emits (values : List Int64) :
    Emits (encodeColumnI64 values .delta) (signedBlock values) 0 := by
  cases values with
  | nil => exact emits_nothing 0 fun _ _ _ => rfl
  | cons first rest =>
    exact encodeDelta_emits "Buffer too small" first.toUInt64
      ((differences (first :: rest)).map ZigZag.encode)

theorem encodeColumnU32_emits (values : List UInt32) :
    Emits (encodeColumnU32 values .bitPacked) (wordBlock values) 0 := by
  cases values with
  | nil => exact emits_nothing 0 fun _ _ _ => rfl
  | cons first rest => exact encodeBitPacked_emits first rest

theorem encodeColumnU16_raw_emits (values : List UInt16) :
    Emits (encodeColumnU16 values .raw) (Element.word16.putMany values) 0 := by
  cases values with
  | nil => exact emits_nothing 0 fun _ _ _ => rfl
  | cons first rest =>
    exact encodeRaw_emits Element.word16 "Buffer too small for u16 raw column" (first :: rest)

theorem encodeColumnU16_packed_emits (values : List UInt16) :
    Emits (encodeColumnU16 values .bitPacked) (wordBlock (values.map UInt16.toUInt32)) 0 := by
  cases values with
  | nil => exact emits_nothing 0 fun _ _ _ => rfl
  | cons first rest => exact encodeColumnU32_emits ((first :: rest).map UInt16.toUInt32)

/-- With five bytes a value in reserve the run-length branch never falls back to raw values. -/
theorem encodeColumnU8_emits (values : List UInt8) :
    Emits (encodeColumnU8 values .rle) (RLE.bytes Element.byte values) (5 * values.length) := by
  by_cases some : values = []
  · subst some
    exact emits_nothing _ fun _ _ _ => rfl
  constructor
  · intro output offset outputSize inside reserve room
    have positive := RLE.length_bytes_pos Element.byte some
    obtain ⟨after, stored, wrote⟩ :=
      store_inside Stop.fault output offset (RLE.bytes Element.byte values) (by omega)
    refine ⟨after, ?_, wrote⟩
    simp only [encodeColumnU8, if_neg some, if_true, RLE.encode_fits Element.byte
      (by omega : (RLE.bytes Element.byte values).length ≤ outputSize - offset), storeTo,
        stored, bind, Except.bind,
      if_neg (by omega : ¬ (RLE.bytes Element.byte values).length = 0), pure, Except.pure]
  · intro output offset outputSize _ reserve tight
    have bound : (RLE.bytes Element.byte values).length ≤ 5 * values.length :=
      RLE.length_bytes_le Element.byte values
    omega

/-- A column of `write_to_file` together with what its encoder does. -/
structure PlannedColumn where
  plan : ColumnPlan
  block : Bytes
  reserve : Nat
  emits : Emits plan.encode block reserve

def planned (writer : SegmentWriter) : List PlannedColumn :=
  [ { plan := ⟨.exchangeTsNs, .delta,
    encodeColumnU64 writer.exchangeTsNs .delta, 8, writer.minTimestamp,
        writer.maxTimestamp⟩
      block := deltaBlock writer.exchangeTsNs, reserve := 0, emits :=
        encodeColumnU64_delta_emits _ },
    { plan := ⟨.receiveTsNs, .delta, encodeColumnU64 writer.receiveTsNs .delta, 8, 0, 0⟩
      block := deltaBlock writer.receiveTsNs, reserve := 0, emits :=
        encodeColumnU64_delta_emits _ },
    { plan := ⟨.sequence, .delta, encodeColumnU64 writer.sequences .delta, 8,
      writer.minSequence, writer.maxSequence⟩
      block := deltaBlock writer.sequences, reserve := 0, emits := encodeColumnU64_delta_emits _ },
    { plan := ⟨.instrumentId, .bitPacked, encodeColumnU32 writer.instrumentIds .bitPacked,
      4, writer.minInstrumentId,
        writer.maxInstrumentId⟩
      block := wordBlock writer.instrumentIds, reserve := 0, emits := encodeColumnU32_emits _ },
    { plan := ⟨.eventType, .rle, encodeColumnU8 writer.eventTypes .rle, 1, 0, 0⟩
      block := RLE.bytes Element.byte writer.eventTypes, reserve := 5 * writer.eventTypes.length
      emits := encodeColumnU8_emits _ },
    { plan := ⟨.side, .rle, encodeColumnU8 writer.sides .rle, 1, 0, 0⟩
      block := RLE.bytes Element.byte writer.sides, reserve := 5 * writer.sides.length
      emits := encodeColumnU8_emits _ },
    { plan := ⟨.flags, .bitPacked, encodeColumnU16 writer.flags .bitPacked, 2, 0, 0⟩
      block := wordBlock (writer.flags.map UInt16.toUInt32), reserve := 0, emits :=
        encodeColumnU16_packed_emits _ },
    { plan := ⟨.priceTicks, .delta, encodeColumnI64 writer.priceTicks .delta, 8,
      writer.minPrice.toUInt64,
        writer.maxPrice.toUInt64⟩
      block := signedBlock writer.priceTicks, reserve := 0, emits := encodeColumnI64_emits _ },
    { plan := ⟨.quantity, .bitPacked, encodeColumnU32 writer.quantities .bitPacked, 4,
      writer.minQuantity.toUInt64,
        writer.maxQuantity.toUInt64⟩
      block := wordBlock writer.quantities, reserve := 0, emits := encodeColumnU32_emits _ },
    { plan := ⟨.venueId, .raw, encodeColumnU16 writer.venueIds .raw, 2, 0, 0⟩
      block := Element.word16.putMany writer.venueIds, reserve := 0, emits :=
        encodeColumnU16_raw_emits _ },
    { plan := ⟨.sourceId, .raw, encodeColumnU16 writer.sourceIds .raw, 2, 0, 0⟩
      block := Element.word16.putMany writer.sourceIds, reserve := 0, emits :=
        encodeColumnU16_raw_emits _ },
    { plan := ⟨.tradeOrOrderId, .raw, encodeColumnU64 writer.tradeOrOrderIds .raw, 8, 0, 0⟩
      block := Element.word64.putMany writer.tradeOrOrderIds, reserve := 0, emits :=
        encodeColumnU64_raw_emits _ } ]

theorem plans_planned (writer : SegmentWriter) :
    (planned writer).map PlannedColumn.plan = writer.columnPlans := rfl

theorem length_planned (writer : SegmentWriter) : (planned writer).length = 12 := rfl

def blocks (columns : List PlannedColumn) : Bytes := columns.flatMap PlannedColumn.block

def descriptorsFrom (rowCount : Nat) : List PlannedColumn → Nat → List ColumnDescriptor
  | [], _ => []
  | column :: rest, offset =>
    column.plan.descriptor rowCount offset (offset + column.block.length) ::
      descriptorsFrom rowCount rest (offset + column.block.length)

/-- Every column that is reached finds its reserve. -/
def Roomy (size : Nat) : List PlannedColumn → Nat → Prop
  | [], _ => True
  | column :: rest, offset =>
    offset + column.reserve ≤ size ∧
      (offset + column.block.length ≤ size → Roomy size rest (offset + column.block.length))

theorem blocks_cons (column : PlannedColumn) (rest : List PlannedColumn) :
    blocks (column :: rest) = column.block ++ blocks rest := by
  simp [blocks]

theorem encodeColumns_fits (rowCount : Nat) (columns : List PlannedColumn) {output : Bytes}
    {offset outputSize : Nat}
    (inside : outputSize ≤ output.length) (roomy : Roomy outputSize columns offset)
    (fits : offset + (blocks columns).length ≤ outputSize) :
    ∃ after, encodeColumns rowCount outputSize (columns.map PlannedColumn.plan) output offset =
        .ok (after, offset + (blocks columns).length, descriptorsFrom rowCount columns offset) ∧
      Extends output after offset (blocks columns) := by
  induction columns generalizing output offset with
  | nil => exact ⟨output, by simp [encodeColumns, blocks,
      descriptorsFrom], Extends.refl output offset⟩
  | cons column rest ih =>
    rw [blocks_cons, List.length_append] at fits
    obtain ⟨reserve, later⟩ := roomy
    obtain ⟨middle, encoded, wrote⟩ := column.emits.fits inside reserve (by omega)
    have length := wrote.length
    obtain ⟨after, loop, more⟩ := @ih middle _ (by omega) (later (by omega)) (by omega)
    refine ⟨after, ?_, ?_⟩
    · simp only [List.map_cons, encodeColumns, encoded, loop, bind, Except.bind, pure, Except.pure,
        blocks_cons, List.length_append, descriptorsFrom, Nat.add_assoc]
    · rw [blocks_cons]
      exact wrote.trans more

theorem encodeColumns_short (rowCount : Nat) (columns : List PlannedColumn) {output : Bytes}
    {offset outputSize : Nat}
    (inside : outputSize ≤ output.length) (roomy : Roomy outputSize columns offset)
    (start : offset ≤ outputSize)
    (tight : outputSize < offset + (blocks columns).length) :
    ∃ status, encodeColumns rowCount outputSize (columns.map PlannedColumn.plan) output offset =
      .error (.status status) := by
  induction columns generalizing output offset with
  | nil =>
    simp only [blocks, List.flatMap_nil, List.length_nil] at tight
    omega
  | cons column rest ih =>
    rw [blocks_cons, List.length_append] at tight
    obtain ⟨reserve, later⟩ := roomy
    by_cases fits : offset + column.block.length ≤ outputSize
    · obtain ⟨middle, encoded, wrote⟩ := column.emits.fits inside reserve fits
      have length := wrote.length
      obtain ⟨status, loop⟩ := @ih middle _ (by omega) (later fits) (by omega) (by omega)
      exact ⟨status, by simp only [List.map_cons, encodeColumns, encoded, loop, bind, Except.bind]⟩
    · obtain ⟨status, failed⟩ := column.emits.short inside reserve (by omega)
      exact ⟨status, by simp only [List.map_cons, encodeColumns, failed, bind, Except.bind]⟩

theorem length_differences {T : Type} [Sub T] (values : List T) :
    (differences values).length = values.length - 1 := by
  induction values with
  | nil => rfl
  | cons first rest ih =>
    cases rest with
    | nil => rfl
    | cons second rest =>
      rw [differences, List.length_cons, ih]
      simp

theorem length_varInts_le (deltas : List UInt64) :
    (varInts deltas).length ≤ 10 * deltas.length := by
  induction deltas with
  | nil => simp [varInts]
  | cons delta rest ih =>
    have first := VarIntU.length_bytes_le delta
    rw [varInts_cons, List.length_append, List.length_cons]
    omega

theorem length_deltaBlock_le (values : List UInt64) :
    (deltaBlock values).length ≤ 10 * values.length := by
  cases values with
  | nil => simp [deltaBlock]
  | cons first rest =>
    have deltas := length_varInts_le (differences (first :: rest))
    rw [length_differences] at deltas
    simp only [deltaBlock, List.length_append, length_u64, List.length_cons] at deltas ⊢
    omega

theorem length_wordBlock_le (values : List UInt32) :
    (wordBlock values).length ≤ 5 + 4 * values.length := by
  cases values with
  | nil => simp [wordBlock]
  | cons first rest =>
    have narrow := BitPackU32.bitsRequired_le (maxElement first rest - minElement first rest)
    have product := Nat.mul_le_mul_left (rest.length + 1) narrow
    have size := BitPackU32.maxEncodedSize_le (rest.length + 1)
      (BitPackU32.bitsRequired (maxElement first rest - minElement first rest))
    rw [wordBlock, length_packedBlock, List.length_cons]
    omega

theorem length_rle_le (values : List UInt8) :
    (RLE.bytes Element.byte values).length ≤ 5 * values.length :=
  RLE.length_bytes_le Element.byte values

/-- The columns start right behind the descriptor table. -/
def columnsStart : Nat := align64 (SegmentHeader.size + ColumnDescriptor.size * columnCount)

theorem columnsStart_eq : columnsStart = 896 := rfl

/-- The run-length columns find their reserve whatever the data in front of them. -/
theorem planned_roomy {writer : SegmentWriter} {events : List CanonicalEvent}
    (holds : Holds writer events) {size : Nat}
    (large : 896 + 44 * events.length + 5 ≤ size) : Roomy size (planned writer) columnsStart := by
  have exchange := length_deltaBlock_le writer.exchangeTsNs
  have receive := length_deltaBlock_le writer.receiveTsNs
  have sequence := length_deltaBlock_le writer.sequences
  have instrument := length_wordBlock_le writer.instrumentIds
  have kinds := length_rle_le writer.eventTypes
  simp only [holds.exchangeTsNs, holds.receiveTsNs, holds.sequences, holds.instrumentIds,
    holds.eventTypes, List.length_map] at exchange receive sequence instrument kinds
  simp only [planned, Roomy, columnsStart_eq, holds.exchangeTsNs, holds.receiveTsNs,
    holds.sequences, holds.instrumentIds, holds.eventTypes, holds.sides, List.length_map]
  refine ⟨by
    omega, fun _ => ⟨by omega, fun _ => ⟨by omega, fun _ => ⟨by omega, fun _ => ⟨by omega, fun _ =>
    ⟨by omega, fun fit => ⟨fit,
      fun fit => ⟨fit, fun fit => ⟨fit, fun fit => ⟨fit, fun fit => ⟨fit, fun fit =>
    ⟨fit, fun _ => trivial⟩⟩⟩⟩⟩⟩⟩⟩⟩⟩⟩⟩

/-- Where the parts of the file stand. -/
def columnsEnd (writer : SegmentWriter) : Nat := columnsStart + (blocks (planned writer)).length

def zoneMapOffset (writer : SegmentWriter) : Nat := align64 (columnsEnd writer)

def bloomFilterOffset (writer : SegmentWriter) : Nat :=
  align64 (zoneMapOffset writer + ZoneMap.size * columnCount)

def footerOffset (writer : SegmentWriter) : Nat :=
  align64 (bloomFilterOffset writer + (BloomFilterParams.forItems writer.rowCount).sizeBytes)

def layoutEnd (writer : SegmentWriter) : Nat := footerOffset writer + SegmentFooter.size

theorem le_align64 (offset : Nat) : offset ≤ align64 offset := by
  rw [align64]
  omega

theorem layout_order (writer : SegmentWriter) :
    896 ≤ columnsEnd writer ∧ columnsEnd writer ≤ zoneMapOffset writer ∧
      zoneMapOffset writer + 768 ≤ bloomFilterOffset writer ∧
      bloomFilterOffset writer + (BloomFilterParams.forItems writer.rowCount).sizeBytes ≤
        footerOffset writer ∧
      layoutEnd writer = footerOffset writer + 128 := by
  refine ⟨?_, le_align64 _, le_align64 _, le_align64 _, rfl⟩
  rw [columnsEnd, columnsStart_eq]
  omega

def varIntsSize (deltas : List UInt64) : Nat :=
  (deltas.map fun delta => (VarIntU.bytes delta).length).sum

def deltaSize (values : List UInt64) : Nat :=
  if values = [] then 0 else 8 + varIntsSize (differences values)

def signedSize (values : List Int64) : Nat :=
  if values = [] then 0 else 8 + varIntsSize ((differences values).map ZigZag.encode)

def wordSize : List UInt32 → Nat
  | [] => 0
  | first :: rest => 5 + BitPackU32.maxEncodedSize (rest.length + 1)
      (BitPackU32.bitsRequired (maxElement first rest - minElement first rest))

def rleSize (values : List UInt8) : Nat := (RLE.bytes Element.byte values).length

/-- The bytes the twelve encoded columns of a list of events take. -/
def columnBytes (events : List CanonicalEvent) : Nat :=
  deltaSize (events.map (·.exchangeTsNs)) + deltaSize (events.map (·.receiveTsNs)) +
    deltaSize (events.map (·.sequence)) + wordSize (events.map (·.instrumentId)) +
    rleSize (events.map (·.eventType.value)) + rleSize (events.map (·.side.value)) +
    wordSize (events.map (·.flags.toUInt32)) + signedSize (events.map (·.priceTicks)) +
    wordSize (events.map (·.quantity)) + 2 * events.length + 2 * events.length + 8 * events.length

/-- Where the columns of a segment with these events end, and where its footer ends. -/
def eventsColumnsEnd (events : List CanonicalEvent) : Nat := 896 + columnBytes events

def eventsLayoutEnd (events : List CanonicalEvent) : Nat :=
  align64 (align64 (align64 (eventsColumnsEnd events) + 768) +
    (BloomFilterParams.forItems events.length).sizeBytes) + 128

theorem length_varInts (deltas : List UInt64) : (varInts deltas).length = varIntsSize deltas := by
  rw [varInts, List.length_flatMap, varIntsSize]

theorem length_deltaBlock (values : List UInt64) :
    (deltaBlock values).length = deltaSize values := by
  cases values with
  | nil => rfl
  | cons first rest => simp [deltaBlock, deltaSize, length_varInts]

theorem length_signedBlock (values : List Int64) :
    (signedBlock values).length = signedSize values := by
  cases values with
  | nil => rfl
  | cons first rest => simp [signedBlock, signedSize, length_varInts]

theorem length_wordBlock (values : List UInt32) : (wordBlock values).length = wordSize values := by
  cases values with
  | nil => rfl
  | cons first rest => rw [wordBlock, length_packedBlock, wordSize]

theorem columnsEnd_eq {writer : SegmentWriter} {events : List CanonicalEvent}
    (holds : Holds writer events) :
    columnsEnd writer = eventsColumnsEnd events := by
  rw [columnsEnd, eventsColumnsEnd, columnsStart_eq, columnBytes, blocks, planned]
  simp only [List.flatMap_cons, List.flatMap_nil, List.length_append, length_deltaBlock,
    length_wordBlock, length_signedBlock, Element.length_putMany, holds.exchangeTsNs,
    holds.receiveTsNs, holds.sequences, holds.instrumentIds, holds.eventTypes, holds.sides,
    holds.flags, holds.priceTicks, holds.quantities, holds.venueIds, holds.sourceIds,
    holds.tradeOrOrderIds, List.length_map, List.map_map, Function.comp_def, rleSize,
    Element.word16, Element.word64, List.length_nil]
  omega

theorem layoutEnd_eq {writer : SegmentWriter} {events : List CanonicalEvent}
    (holds : Holds writer events) :
    layoutEnd writer = eventsLayoutEnd events := by
  rw [layoutEnd, footerOffset, bloomFilterOffset, zoneMapOffset, columnsEnd_eq holds,
    holds.rowCount, eventsLayoutEnd]
  rfl

/-- The buffer of `write_to_file`, twice the estimate, and the block it lies in. -/
def bufferSize (events : List CanonicalEvent) : Nat := 5632 + 56 * events.length

def blockSize (events : List CanonicalEvent) : Nat := AlignedBuffer.allocSize (bufferSize events)

theorem blockSize_bounds (events : List CanonicalEvent) :
    bufferSize events ≤ blockSize events ∧ blockSize events < bufferSize events + 64 :=
  ⟨AlignedBuffer.le_allocSize _, AlignedBuffer.allocSize_lt _⟩

/-- A layout that fits the block has its columns inside the size asked for. -/
theorem columns_of_room {events : List CanonicalEvent}
    (room : eventsLayoutEnd events ≤ blockSize events) :
    eventsColumnsEnd events ≤ bufferSize events := by
  obtain ⟨_, close⟩ := blockSize_bounds events
  have zones := le_align64 (eventsColumnsEnd events)
  have blooms := le_align64 (align64 (eventsColumnsEnd events) + 768)
  have footers := le_align64 (align64 (align64 (eventsColumnsEnd events) + 768) +
    (BloomFilterParams.forItems events.length).sizeBytes)
  rw [eventsLayoutEnd] at room
  omega

theorem estimatedSize_eq {writer : SegmentWriter} {events : List CanonicalEvent}
    (holds : Holds writer events) :
    writer.estimatedSize * 2 = bufferSize events := by
  rw [estimatedSize, holds.rowCount, bufferSize, SegmentHeader.size, ColumnDescriptor.size,
    ZoneMap.size, SegmentFooter.size, columnCount, rowBytes]
  omega

theorem length_bloomFilter (params : BloomFilterParams) (instrumentIds : List UInt32) :
    (bloomFilter params instrumentIds).length = params.sizeBytes := by
  rw [bloomFilter, length_foldl _ _ _ fun filter instrumentId => ?_, List.length_replicate]
  apply length_foldl
  intro filter h
  rw [setBit, List.length_modify]

theorem storeEach_inside (output : Bytes) (offset : Nat) (pieces : List Bytes)
    (room : offset + pieces.flatten.length ≤ output.length) :
    ∃ after, storeEach pieces output offset = .ok (after, offset + pieces.flatten.length) ∧
      Extends output after offset pieces.flatten := by
  induction pieces generalizing output offset with
  | nil => exact ⟨output, rfl, Extends.refl output offset⟩
  | cons piece rest ih =>
    rw [List.flatten_cons, List.length_append] at room
    obtain ⟨middle, stored, wrote⟩ := store_inside Stop.fault output offset piece
      (by omega)
    have length := wrote.length
    obtain ⟨after, loop, more⟩ := ih middle (offset + piece.length) (by omega)
    refine ⟨after, ?_, ?_⟩
    · simp only [storeEach, storeTo, stored, loop, bind, Except.bind, List.flatten_cons,
        List.length_append, Nat.add_assoc]
    · rw [List.flatten_cons]
      exact wrote.trans more

/-- A descriptor with both checksums in place. -/
def sealDescriptor (desc : ColumnDescriptor) (block : Bytes) : ColumnDescriptor :=
  { desc with dataCrc := Crc32C.compute block }.withChecksum

def sealedFrom (rowCount : Nat) : List PlannedColumn → Nat → List ColumnDescriptor
  | [], _ => []
  | column :: rest, offset =>
    sealDescriptor
      (column.plan.descriptor rowCount offset (offset + column.block.length)) column.block ::
      sealedFrom rowCount rest (offset + column.block.length)

theorem length_sealedFrom (rowCount : Nat) (columns : List PlannedColumn) (offset : Nat) :
    (sealedFrom rowCount columns offset).length = columns.length := by
  induction columns generalizing offset with
  | nil => rfl
  | cons column rest ih => rw [sealedFrom, List.length_cons, ih, List.length_cons]

theorem length_descriptorsFrom (rowCount : Nat) (columns : List PlannedColumn) (offset : Nat) :
    (descriptorsFrom rowCount columns offset).length = columns.length := by
  induction columns generalizing offset with
  | nil => rfl
  | cons column rest ih => rw [descriptorsFrom, List.length_cons, ih, List.length_cons]

/-- The first block of a run of blocks, and the rest behind it. -/
theorem slice_blocks_cons {data : Bytes} {column : PlannedColumn}
    {rest : List PlannedColumn} {offset : Nat}
    (placed : slice data offset (blocks (column :: rest)).length = blocks (column :: rest))
    (inside : offset + (blocks (column :: rest)).length ≤ data.length) :
    slice data offset column.block.length = column.block ∧
      slice data (offset + column.block.length) (blocks rest).length = blocks rest := by
  rw [blocks_cons, List.length_append] at inside
  rw [blocks_cons, List.length_append, slice_add] at placed
  exact List.append_inj placed (length_slice (by omega))

theorem sealDescriptors_eq (rowCount : Nat) (columns : List PlannedColumn)
    {data : Bytes} {offset : Nat}
    (placed : slice data offset (blocks columns).length = blocks columns)
    (inside : offset + (blocks columns).length ≤ data.length) (small : data.length < 2 ^ 64) :
    sealDescriptors data (descriptorsFrom rowCount columns offset) =
      .ok (sealedFrom rowCount columns offset) := by
  induction columns generalizing offset with
  | nil => rfl
  | cons column rest ih =>
    obtain ⟨first, others⟩ := slice_blocks_cons placed inside
    rw [blocks_cons, List.length_append] at inside
    have start : (UInt64.ofNat offset).toNat = offset := by
      rw [UInt64.toNat_ofNat', Nat.mod_eq_of_lt (by omega)]
    have size : (UInt64.ofNat (offset + column.block.length - offset)).toNat =
        column.block.length := by
      rw [UInt64.toNat_ofNat', Nat.add_sub_cancel_left, Nat.mod_eq_of_lt (by omega)]
    have read : loadFrom data offset column.block.length = .ok column.block := by
      rw [loadFrom, load_inside _ (by omega), first]
    rw [descriptorsFrom, sealDescriptors]
    simp only [ColumnPlan.descriptor, start, size, read, ih others (by omega), bind,
      Except.bind, pure, Except.pure]
    rfl

def sealedDescriptors (writer : SegmentWriter) : List ColumnDescriptor :=
  sealedFrom writer.rowCount (planned writer) columnsStart

def descriptorTable (writer : SegmentWriter) : Bytes :=
  (sealedDescriptors writer).flatMap ColumnDescriptor.toBytes

def fileHeader (writer : SegmentWriter) : SegmentHeader :=
  (writer.header (zoneMapOffset writer) (bloomFilterOffset writer)
    (BloomFilterParams.forItems writer.rowCount).sizeBytes (footerOffset writer)).withChecksum

def fileFooter (writer : SegmentWriter) : SegmentFooter :=
  (writer.footer (footerOffset writer) (Crc32C.compute (descriptorTable writer))
    (segmentDigest (sealedDescriptors writer))).withChecksum

theorem length_descriptorTable (writer : SegmentWriter) :
    (descriptorTable writer).length = 768 := by
  have count : (sealedDescriptors writer).length = 12 := length_sealedFrom _ _ _
  rw [descriptorTable, List.length_flatMap, List.map_congr_left fun desc _ =>
    desc.length_toBytes, List.map_const', count]
  rfl

def zonePieces (writer : SegmentWriter) : List Bytes :=
  (descriptorsFrom writer.rowCount (planned writer) columnsStart).map fun desc =>
    (zoneMap writer.rowCount desc).toBytes

theorem length_zonePieces (writer : SegmentWriter) : (zonePieces writer).flatten.length = 768 := by
  have count : (descriptorsFrom writer.rowCount (planned writer) columnsStart).length = 12 :=
    length_descriptorsFrom _ _ _
  simp [zonePieces, List.length_flatten, Function.comp_def, ZoneMap.size, count]

/-- The zone maps, as records. -/
def fileZones (writer : SegmentWriter) : List ZoneMap :=
  (descriptorsFrom writer.rowCount (planned writer) columnsStart).map (zoneMap writer.rowCount)

/-- The filter of the rows of a writer. -/
def fileFilter (writer : SegmentWriter) : Bytes :=
  bloomFilter (BloomFilterParams.forItems writer.rowCount) writer.instrumentIds

/-- A file the writer can have produced. The bytes between the parts are not determined. -/
structure FileOf (writer : SegmentWriter) (file : Bytes) : Prop where
  length : file.length = layoutEnd writer
  header : slice file 0 SegmentHeader.size = (fileHeader writer).toBytes
  table : slice file SegmentHeader.size 768 = descriptorTable writer
  columns : slice file columnsStart (blocks (planned writer)).length = blocks (planned writer)
  zones : slice file (zoneMapOffset writer) 768 = (zonePieces writer).flatten
  filter : slice file (bloomFilterOffset writer)
    (BloomFilterParams.forItems writer.rowCount).sizeBytes =
    fileFilter writer
  footer : slice file (footerOffset writer) SegmentFooter.size = (fileFooter writer).toBytes

section Tail

variable {writer : SegmentWriter} {data : Bytes}

/-- The buffer once everything but the footer is in it. -/
structure Headed (writer : SegmentWriter) (data headed : Bytes) : Prop where
  length : headed.length = data.length
  header : slice headed 0 SegmentHeader.size = (fileHeader writer).toBytes
  table : slice headed SegmentHeader.size 768 = descriptorTable writer
  columns : slice headed columnsStart (blocks (planned writer)).length = blocks (planned writer)
  zones : slice headed (zoneMapOffset writer) 768 = (zonePieces writer).flatten
  filter : slice headed (bloomFilterOffset writer)
    (BloomFilterParams.forItems writer.rowCount).sizeBytes =
    fileFilter writer

/-- Up to the footer `write_to_file` needs room for the zone maps and the filter only. -/
theorem writeTail_headed (placed : slice data columnsStart (blocks (planned writer)).length =
    blocks (planned writer))
    (fits : bloomFilterOffset writer +
      (BloomFilterParams.forItems writer.rowCount).sizeBytes ≤ data.length)
    (small : data.length < 2 ^ 64) :
    ∃ headed, Headed writer data headed ∧
      writer.writeTail data (columnsEnd writer)
      (descriptorsFrom writer.rowCount (planned writer) columnsStart) = (do
        let final ← storeTo headed (footerOffset writer) (fileFooter writer).toBytes
        loadFrom final 0 (layoutEnd writer)) := by
  obtain ⟨started, zones, blooms, footers, ends⟩ := layout_order writer
  have zoneLength := length_zonePieces writer
  have tableLength := length_descriptorTable writer
  have filterLength : (fileFilter writer).length =
      (BloomFilterParams.forItems writer.rowCount).sizeBytes :=
    length_bloomFilter _ _
  have headerLength : (fileHeader writer).toBytes.length = 128 := SegmentHeader.length_toBytes _
  have columnsLength : columnsStart + (blocks (planned writer)).length = columnsEnd writer := rfl
  -- The zone maps and the filter go behind the columns.
  obtain ⟨zoned, storedZones, wroteZones⟩ :=
    storeEach_inside data (zoneMapOffset writer) (zonePieces writer) (by omega)
  have zonedLength := wroteZones.length
  obtain ⟨filtered, storedFilter, wroteFilter⟩ :=
    store_inside Stop.fault zoned (bloomFilterOffset writer)
    (fileFilter writer) (by omega)
  have filteredLength := wroteFilter.length
  have columnsFiltered : slice filtered columnsStart (blocks (planned writer)).length =
      blocks (planned writer) := by
    rw [wroteFilter.slice_before (by omega)
      (by omega), wroteZones.slice_before (by omega) (by omega), placed]
  have zonesFiltered : slice filtered (zoneMapOffset writer) 768 = (zonePieces writer).flatten := by
    have block := wroteZones.slice_block (by omega)
    rwa [wroteFilter.slice_before (by omega) (by omega), ← zoneLength]
  have filterFiltered := wroteFilter.slice_block (by omega)
  rw [filterLength] at filterFiltered
  have descriptorsSealed :=
    sealDescriptors_eq writer.rowCount (planned writer) columnsFiltered (by omega) (by omega)
  -- The table and the header go in front of them.
  have tableRoom : SegmentHeader.size + (descriptorTable writer).length ≤ filtered.length := by
    rw [tableLength, SegmentHeader.size]
    omega
  obtain ⟨tabled, storedTable, wroteTable⟩ := store_inside Stop.fault _ _ _ tableRoom
  have tabledLength := wroteTable.length
  have readTable : loadFrom tabled SegmentHeader.size
      ((sealedDescriptors writer).length * ColumnDescriptor.size) =
      .ok (descriptorTable writer) := by
    have count : (sealedDescriptors writer).length * ColumnDescriptor.size =
        (descriptorTable writer).length := by
      rw [tableLength, sealedDescriptors, length_sealedFrom, length_planned, ColumnDescriptor.size]
    rw [loadFrom, load_inside _ (by omega), count, wroteTable.slice_block (by omega)]
  have headerRoom : 0 + (fileHeader writer).toBytes.length ≤ tabled.length := by omega
  obtain ⟨headed, storedHeader, wroteHeader⟩ := store_inside Stop.fault _ _ _ headerRoom
  have headedLength := wroteHeader.length
  -- Neither reaches the columns or anything behind them.
  have behind : ∀ {start count : Nat}, columnsStart ≤ start →
      slice headed start count = slice filtered start count := by
    intro start count after
    rw [columnsStart_eq] at after
    rw [store_slice_other _ headerRoom storedHeader (.inr (by omega)),
      store_slice_other _ tableRoom storedTable
        (.inr (by rw [tableLength, SegmentHeader.size]; omega))]
  rw [← columnsLength] at zones
  refine ⟨headed, ?_, ?_⟩
  · constructor
    · omega
    · have block := wroteHeader.slice_block (by omega)
      rwa [headerLength] at block
    · rw [store_slice_other _ headerRoom storedHeader
        (.inr (by rw [headerLength, SegmentHeader.size]))]
      have block := wroteTable.slice_block (by omega)
      rwa [tableLength] at block
    · rw [behind (by omega), columnsFiltered]
    · rw [behind (by omega), zonesFiltered]
    · rw [behind (by omega), filterFiltered]
  · have offsets : bloomFilterOffset writer =
        align64 (zoneMapOffset writer + (zonePieces writer).flatten.length) := by
      rw [zoneLength]
      rfl
    unfold writeTail
    simp only [bind, Except.bind]
    rw [show (descriptorsFrom writer.rowCount (planned writer) columnsStart).map
      (fun desc => (zoneMap writer.rowCount desc).toBytes) = zonePieces writer from rfl,
      show align64 (columnsEnd writer) = zoneMapOffset writer from rfl, storedZones]
    rw [show bloomFilter (BloomFilterParams.forItems writer.rowCount) writer.instrumentIds =
      fileFilter writer from rfl]
    simp only [← offsets, storeTo, storedFilter]
    rw [descriptorsSealed]
    simp only
    rw [show sealedFrom writer.rowCount (planned writer) columnsStart =
      sealedDescriptors writer from rfl,
      show (sealedDescriptors writer).flatMap ColumnDescriptor.toBytes =
        descriptorTable writer from rfl, storedTable]
    simp only [readTable]
    rw [show align64
      (bloomFilterOffset writer + (BloomFilterParams.forItems writer.rowCount).sizeBytes) =
      footerOffset writer from rfl,
        show (writer.header (zoneMapOffset writer) (bloomFilterOffset writer)
      (BloomFilterParams.forItems writer.rowCount).sizeBytes (footerOffset writer)).withChecksum =
      fileHeader writer from rfl, storedHeader]
    rfl

theorem writeTail_fits (placed : slice data columnsStart (blocks (planned writer)).length =
    blocks (planned writer))
    (fits : layoutEnd writer ≤ data.length) (small : data.length < 2 ^ 64) :
    ∃ file, writer.writeTail data (columnsEnd writer)
    (descriptorsFrom writer.rowCount (planned writer) columnsStart) =
      .ok file ∧ FileOf writer file := by
  obtain ⟨started, zones, blooms, footers, ends⟩ := layout_order writer
  obtain ⟨headed, parts, tail⟩ := writeTail_headed placed (by omega) small
  have footerLength : (fileFooter writer).toBytes.length = 128 := SegmentFooter.length_toBytes _
  have columnsLength : columnsStart + (blocks (planned writer)).length = columnsEnd writer := rfl
  have length := parts.length
  obtain ⟨final, stored, wrote⟩ :=
    store_inside Stop.fault headed (footerOffset writer) ((fileFooter writer).toBytes)
    (by omega)
  have finalLength := wrote.length
  -- The footer stands behind everything the file is read back from.
  have keeps : ∀ {first count : Nat}, first + count ≤ footerOffset writer →
      slice (final.take (layoutEnd writer)) first count = slice headed first count :=
        fun before => by
    rw [slice_take _ (by omega), wrote.slice_before (by omega) before]
  refine ⟨final.take (layoutEnd writer), ?_, ?_⟩
  · rw [tail, storeTo, stored]
    change loadFrom final 0 (layoutEnd writer) = _
    rw [loadFrom, load_inside _ (by omega), slice, List.drop_zero]
  · constructor
    · rw [List.length_take]
      omega
    · rw [keeps (by rw [SegmentHeader.size]; omega), parts.header]
    · rw [keeps (by rw [SegmentHeader.size]; omega), parts.table]
    · rw [keeps (by omega), parts.columns]
    · rw [keeps (by omega), parts.zones]
    · rw [keeps (by omega), parts.filter]
    · rw [slice_take _ (by rw [SegmentFooter.size]; omega)]
      have block := wrote.slice_block (by omega)
      rwa [footerLength] at block

end Tail

end VectorTick.SegmentWriter
