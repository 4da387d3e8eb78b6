import VectorTick.Codec.RleStreams
import VectorTick.Storage.SegmentRoundTrip

/-! When reading a file that opened and validated stays inside the file and the column buffers.

`validate` checks that each column block lies in the file. It does not check that a block fits
the buffer it is decoded into, nor that a block is long enough for the fixed part of its
encoding: a shorter one makes the size that is left wrap around.
-/

set_option autoImplicit false

namespace VectorTick.SegmentReader

open Foundation Codec Vts1 SegmentWriter

/-- The complete integers at the front of some bytes, at most `limit`, and the bytes behind them. -/
def wholeVarInts : Nat → Bytes → Nat × Bytes
  | 0, bytes => (0, bytes)
  | limit + 1, bytes =>
    match VarIntU.frontSize bytes with
    | none => (0, bytes)
    | some size =>
      ((wholeVarInts limit (bytes.drop size)).1 + 1, (wholeVarInts limit (bytes.drop size)).2)

def sizeBehind (desc : ColumnDescriptor) (used : Nat) : Nat :=
  (desc.compressedSize - UInt64.ofNat used).toNat

def bytesBehind (file : Bytes) (desc : ColumnDescriptor) (used : Nat) : Bytes :=
  file.drop (desc.offset.toNat + used)

def deltaSplit (file : Bytes) (desc : ColumnDescriptor) (rows : Nat) : Nat × Bytes :=
  wholeVarInts (rows - 1) ((bytesBehind file desc 8).take (sizeBehind desc 8))

/-- The first value lies in the file, every decoded value fits the buffer, and the search for
the next integer ends by itself, at the declared size, or not at all. -/
def DeltaFits (file : Bytes) (desc : ColumnDescriptor) (rows room : Nat) : Prop :=
  desc.offset.toNat + 8 ≤ file.length ∧ 8 * (1 + (deltaSplit file desc rows).1) ≤ room ∧
    ((deltaSplit file desc rows).1 = rows - 1 ∨
      VarIntU.maxSize ≤ (deltaSplit file desc rows).2.length ∨
      sizeBehind desc 8 ≤ (bytesBehind file desc 8).length)

def packedBits (file : Bytes) (desc : ColumnDescriptor) : Nat :=
  leValue (slice file (desc.offset.toNat + 4) 1)

/-- The stored width is usable and the declared size holds all values. -/
def PackedComplete (file : Bytes) (desc : ColumnDescriptor) (rows : Nat) : Prop :=
  1 ≤ packedBits file desc ∧ packedBits file desc ≤ 32 ∧
    (rows * packedBits file desc + 7) / 8 ≤ sizeBehind desc 5

/-- The reference and the width lie in the file; if values are unpacked at all, so do the windows
they are taken from, and the element written is no wider than the buffer's. -/
def PackedFits (file : Bytes) (desc : ColumnDescriptor) (rows width : Nat) : Prop :=
  desc.offset.toNat + 5 ≤ file.length ∧
    (PackedComplete file desc rows →
      (sizeBehind desc 5 ≤ (bytesBehind file desc 5).length ∨
        (rows - 1) * packedBits file desc / 8 + 8 ≤ (bytesBehind file desc 5).length) ∧
      (if desc.type = .u16 then 2 else 4) ≤ width)

/-- A run-length block decodes to the number of rows. -/
def RunsComplete (file : Bytes) (desc : ColumnDescriptor) (rows : Nat) : Prop :=
  ∃ used values, RLE.decode Element.byte (bytesBehind file desc 0) desc.compressedSize.toNat rows =
    .ok (used, values) ∧ used ≠ 0

/-- The column stays inside the file and inside a buffer of `rows` elements of `width` bytes. -/
def ColumnFits (file : Bytes) (desc : ColumnDescriptor) (rows width : Nat) : Prop :=
  if desc.encoding = .delta then DeltaFits file desc rows (rows * width)
  else if desc.encoding = .bitPacked then PackedFits file desc rows width
  else if desc.encoding = .rle ∧ desc.type = .u8 then True
  else desc.compressedSize.toNat ≤ rows * width

def ColumnComplete (file : Bytes) (desc : ColumnDescriptor) (rows : Nat) : Prop :=
  if desc.encoding = .delta then (deltaSplit file desc rows).1 = rows - 1
  else if desc.encoding = .bitPacked then PackedComplete file desc rows
  else if desc.encoding = .rle ∧ desc.type = .u8 then RunsComplete file desc rows
  else True

/-- What validation establishes about a descriptor: its block lies in the file. -/
structure Checked (file : Bytes) (desc : ColumnDescriptor) : Prop where
  inside : desc.offset.toNat + desc.compressedSize.toNat ≤ file.length
  crc : Crc32C.compute (slice file desc.offset.toNat desc.compressedSize.toNat) = desc.dataCrc

/-- The three ways a column can end. -/
def Ends (outcome : Except Stop Bytes) (fits complete : Prop) : Prop :=
  (¬ fits → outcome = .error .fault) ∧
  (fits → complete → ∃ buffer, outcome = .ok buffer) ∧
  (fits → ¬ complete → ∃ status, outcome = .error (.status status))

theorem sizeBehind_add {desc : ColumnDescriptor} {offset used : Nat}
    (enough : used ≤ sizeBehind desc offset) :
    sizeBehind desc (offset + used) = sizeBehind desc offset - used := by
  have bounded : sizeBehind desc offset < 2 ^ 64 := UInt64.toNat_lt _
  have step : desc.compressedSize - UInt64.ofNat (offset + used) =
      desc.compressedSize - UInt64.ofNat offset - UInt64.ofNat used := by
    rw [UInt64.ofNat_add]
    grind
  have small : (UInt64.ofNat used).toNat = used := by
    rw [UInt64.toNat_ofNat', Nat.mod_eq_of_lt (by omega)]
  rw [sizeBehind, step,
    UInt64.toNat_sub_of_le _ _ (by rw [UInt64.le_iff_toNat_le, small]; exact enough), small]
  rfl

theorem decodeDeltas_ends (file : Bytes) (desc : ColumnDescriptor)
    (output : Bytes) (message : String)
    (delta : UInt64 → UInt64)
    (left i offset : Nat) (previous : UInt64) (room : 8 * i ≤ output.length) :
    Ends (decodeDeltas file desc message delta left i offset previous output)
      (8 * (i + (wholeVarInts left
        ((bytesBehind file desc offset).take (sizeBehind desc offset))).1) ≤ output.length ∧
        ((wholeVarInts left ((bytesBehind file desc offset).take (sizeBehind desc offset))).1 =
          left ∨
          VarIntU.maxSize ≤
            (wholeVarInts left
              ((bytesBehind file desc offset).take (sizeBehind desc offset))).2.length ∨
          sizeBehind desc offset ≤ (bytesBehind file desc offset).length))
      ((wholeVarInts left ((bytesBehind file desc offset).take (sizeBehind desc offset))).1 =
        left) := by
  induction left generalizing i offset previous output with
  | zero =>
    refine ⟨fun unfit => absurd ⟨by simpa [wholeVarInts] using room, .inl rfl⟩ unfit,
      fun _ _ => ⟨output, rfl⟩,
      fun _ incomplete => absurd rfl incomplete⟩
  | succ left ih =>
    rw [decodeDeltas]
    rcases VarIntU.decode_cases (bytesBehind file desc offset) (sizeBehind desc offset) with
      ⟨used, raw, found, decoded⟩ | ⟨missing, ends, raw, decoded⟩ | ⟨missing, runs, decoded⟩
    · obtain ⟨positive, short⟩ := VarIntU.terminator_bounds found
      rw [List.length_take] at short
      have behind : bytesBehind file desc (offset + used) =
          (bytesBehind file desc offset).drop used := by
        rw [bytesBehind, bytesBehind, List.drop_drop, Nat.add_assoc]
      have sizes : sizeBehind desc (offset + used) = sizeBehind desc offset - used :=
        sizeBehind_add (by omega)
      have window : ((bytesBehind file desc offset).take (sizeBehind desc offset)).drop used =
          (bytesBehind file desc (offset + used)).take (sizeBehind desc (offset + used)) := by
        rw [List.drop_take, behind, sizes]
      have more : sizeBehind desc offset ≤ (bytesBehind file desc offset).length ↔
          sizeBehind desc (offset + used) ≤ (bytesBehind file desc (offset + used)).length := by
        rw [sizes, behind, List.length_drop]
        omega
      have split : wholeVarInts (left + 1)
          ((bytesBehind file desc offset).take (sizeBehind desc offset)) =
          ((wholeVarInts left
            ((bytesBehind file desc (offset + used)).take (sizeBehind desc (offset + used)))).1 + 1,
            (wholeVarInts left ((bytesBehind file desc (offset + used)).take
              (sizeBehind desc (offset + used)))).2) := by
        rw [wholeVarInts, found]
        simp only [window]
      rw [split, show VarIntU.decode (file.drop (desc.offset.toNat + offset))
        (desc.compressedSize - UInt64.ofNat offset).toNat = _ from decoded, ok_bind]
      simp only [if_neg (by omega : ¬ used = 0), more, Nat.add_right_cancel_iff]
      generalize whole : wholeVarInts left
        ((bytesBehind file desc (offset + used)).take (sizeBehind desc (offset + used))) =
          behindThese
      have shift : i + (behindThese.1 + 1) = i + 1 + behindThese.1 := by omega
      by_cases inside : 8 * i + (u64 (previous + delta raw)).length ≤ output.length
      · obtain ⟨middle, stored, extended⟩ := store_inside Stop.fault _ _ _ inside
        rw [length_u64] at inside
        rw [storeTo, stored, ok_bind, shift, ← extended.length, ← whole]
        exact ih middle (i + 1) (offset + used) (previous + delta raw)
          (by rw [extended.length]; omega)
      · rw [storeTo,
          store_outside Stop.fault _ _ _ (List.ne_nil_of_length_pos (by rw [length_u64]; decide))
          (by omega), error_bind]
        rw [length_u64] at inside
        exact ⟨fun _ => rfl, fun fits => absurd fits.1 (by omega),
          fun fits => absurd fits.1 (by omega)⟩
    · rw [show VarIntU.decode (file.drop (desc.offset.toNat + offset))
        (desc.compressedSize - UInt64.ofNat offset).toNat = _ from decoded, ok_bind]
      have split : wholeVarInts (left + 1)
          ((bytesBehind file desc offset).take (sizeBehind desc offset)) =
          (0, (bytesBehind file desc offset).take (sizeBehind desc offset)) := by
        rw [wholeVarInts, missing]
      rw [split]
      refine ⟨fun unfit => absurd ⟨by omega, .inr ends⟩ unfit, fun _ complete =>
        absurd complete (by omega), ?_⟩
      exact fun _ _ => ⟨⟨.segmentCorrupted, message⟩, rfl⟩
    · rw [show VarIntU.decode (file.drop (desc.offset.toNat + offset))
        (desc.compressedSize - UInt64.ofNat offset).toNat = _ from decoded, error_bind]
      have split : wholeVarInts (left + 1)
          ((bytesBehind file desc offset).take (sizeBehind desc offset)) =
          (0, (bytesBehind file desc offset).take (sizeBehind desc offset)) := by
        rw [wholeVarInts, missing]
      rw [split]
      have unfit : ¬ (0 = left + 1 ∨ VarIntU.maxSize ≤
          ((bytesBehind file desc offset).take (sizeBehind desc offset)).length ∨
          sizeBehind desc offset ≤ (bytesBehind file desc offset).length) := by omega
      exact ⟨fun _ => rfl, fun fits => absurd fits.2 unfit, fun fits => absurd fits.2 unfit⟩

theorem loadFrom_outside {file : Bytes} {offset count : Nat} (some : 0 < count)
    (outside : file.length < offset + count) :
    loadFrom file offset count = .error .fault := by
  rw [loadFrom, load, if_neg (by omega)]

theorem decodeDelta_ends {file : Bytes} {desc : ColumnDescriptor} {output : Bytes}
    {rows : Nat} (some : 0 < rows) :
    Ends (decodeDelta file desc output rows) (DeltaFits file desc rows output.length)
      ((deltaSplit file desc rows).1 = rows - 1) := by
  rw [decodeDelta]
  simp only [if_pos (show rows > 0 from some)]
  by_cases inside : desc.offset.toNat + 8 ≤ file.length
  · rw [loadFrom, load_inside _ inside, ok_bind]
    generalize u64Of (slice file desc.offset.toNat 8) = first
    by_cases room : 0 + (u64 first).length ≤ output.length
    · obtain ⟨middle, stored, extended⟩ := store_inside Stop.fault _ _ _ room
      rw [length_u64] at room
      rw [storeTo, stored, ok_bind]
      have loop :=
        fun message delta => decodeDeltas_ends file desc middle message delta (rows - 1) 1 8
        first (by rw [extended.length]; omega)
      rw [extended.length] at loop
      simp only [DeltaFits, inside, true_and]
      split
      · exact loop _ _
      · exact loop _ _
    · rw [storeTo, store_outside Stop.fault _ _ _
        (List.ne_nil_of_length_pos (by rw [length_u64]; decide)) (by omega),
        error_bind]
      rw [length_u64] at room
      have unfit : ¬ DeltaFits file desc rows output.length :=
        fun fits => absurd fits.2.1 (by omega)
      exact ⟨fun _ => rfl, fun fits => absurd fits unfit, fun fits => absurd fits unfit⟩
  · rw [loadFrom_outside (by decide) (by omega), error_bind]
    have unfit : ¬ DeltaFits file desc rows output.length := fun fits => inside fits.1
    exact ⟨fun _ => rfl, fun fits => absurd fits unfit, fun fits => absurd fits unfit⟩

theorem decodePacked_cases {file : Bytes} {desc : ColumnDescriptor} {rows : Nat}
    (checked : Checked file desc)
    (some : 0 < rows) (few : 56 * rows < 2 ^ 63) (fixed : desc.offset.toNat + 5 ≤ file.length) :
    (¬ PackedComplete file desc rows ∧
      BitPackU32.decode (bytesBehind file desc 5) (sizeBehind desc 5)
      (packedBits file desc) rows = .ok (0, [])) ∨
    (PackedComplete file desc rows ∧
      (sizeBehind desc 5 ≤ (bytesBehind file desc 5).length ∨
        (rows - 1) * packedBits file desc / 8 + 8 ≤ (bytesBehind file desc 5).length) ∧
      ∃ used values, BitPackU32.decode (bytesBehind file desc 5) (sizeBehind desc 5)
      (packedBits file desc) rows =
        .ok (used, values) ∧ used ≠ 0 ∧ values.length = rows) ∨
    (PackedComplete file desc rows ∧
      ¬ (sizeBehind desc 5 ≤ (bytesBehind file desc 5).length ∨
        (rows - 1) * packedBits file desc / 8 + 8 ≤ (bytesBehind file desc 5).length) ∧
      BitPackU32.decode (bytesBehind file desc 5) (sizeBehind desc 5) (packedBits file desc) rows =
        .error .fault) := by
  by_cases narrow : 1 ≤ packedBits file desc ∧ packedBits file desc ≤ 32
  · have product : rows * packedBits file desc ≤ rows * 32 := Nat.mul_le_mul_left _ narrow.2
    have positive : rows * 1 ≤ rows * packedBits file desc := Nat.mul_le_mul_left _ narrow.1
    have bits : rows * packedBits file desc % 2 ^ 64 = rows * packedBits file desc :=
      Nat.mod_eq_of_lt (by omega)
    have rounded : (rows * packedBits file desc + 7) % 2 ^ 64 = rows * packedBits file desc + 7 :=
      Nat.mod_eq_of_lt (by omega)
    by_cases enough : (rows * packedBits file desc + 7) / 8 ≤ sizeBehind desc 5
    · have complete : PackedComplete file desc rows := ⟨narrow.1, narrow.2, enough⟩
      refine .inr ?_
      rw [BitPackU32.decode]
      simp only [bits, rounded]
      rw [if_neg (by omega), if_neg (by omega)]
      by_cases windows : sizeBehind desc 5 ≤ (bytesBehind file desc 5).length ∨
          (rows - 1) * packedBits file desc / 8 + 8 ≤ (bytesBehind file desc 5).length
      · refine .inl ⟨complete, windows, ?_⟩
        obtain ⟨values, decoded, length⟩ :=
          BitPackU32.decodeLoop_inside (bytesBehind file desc 5) (sizeBehind desc 5)
          (packedBits file desc) rows 0 (by omega) (windows.imp_right fun last i inRows => by
            have below : i * packedBits file desc ≤ (rows - 1) * packedBits file desc :=
              Nat.mul_le_mul_right _ (by omega)
            omega)
        exact ⟨(rows * packedBits file desc + 7) / 8,
          values, by rw [decoded, ok_bind]; rfl, by omega, length⟩
      · refine .inr ⟨complete, windows, ?_⟩
        have wrapped : desc.compressedSize.toNat < 5 := by
          by_contra large
          have size : sizeBehind desc 5 = desc.compressedSize.toNat - 5 := by
            rw [sizeBehind,
              UInt64.toNat_sub_of_le _ _ (by rw [UInt64.le_iff_toNat_le]; simpa using large)]
            rfl
          have behind : (bytesBehind file desc 5).length = file.length - (desc.offset.toNat + 5) :=
            List.length_drop
          have inside := checked.inside
          omega
        have told : 2 ^ 64 - 5 ≤ sizeBehind desc 5 := by
          rw [sizeBehind, UInt64.toNat_sub, show (UInt64.ofNat 5).toNat = 5 from rfl]
          omega
        have below : (rows - 1) * packedBits file desc ≤ rows * packedBits file desc :=
          Nat.mul_le_mul_right _ (by omega)
        rw [BitPackU32.decodeLoop_outside rows 0 some (by omega) (by omega) (by omega), error_bind]
    · refine .inl ⟨fun complete => enough complete.2.2, ?_⟩
      rw [BitPackU32.decode]
      simp only [bits, rounded]
      rw [if_pos (by omega)]
  · refine .inl ⟨fun complete => narrow ⟨complete.1, complete.2.1⟩, ?_⟩
    rw [BitPackU32.decode]
    split
    · rfl
    · rw [if_pos (by omega)]

theorem storeTo_elements {T : Type} (values : List T) (element : Element T)
    {output : Bytes} {rows width : Nat}
    (count : values.length = rows) (some : 0 < rows) (solid : 0 < element.size)
    (sized : output.length = rows * width) :
    (element.size ≤ width → ∃ buffer, storeTo output 0 (element.putMany values) = .ok buffer) ∧
    (¬ element.size ≤ width → storeTo output 0 (element.putMany values) = .error .fault) := by
  have length : (element.putMany values).length = rows * element.size := by
    rw [element.length_putMany, count]
  constructor
  · intro narrow
    have room : rows * element.size ≤ rows * width := Nat.mul_le_mul_left _ narrow
    obtain ⟨buffer, stored, _⟩ :=
      store_inside Stop.fault output 0 (element.putMany values) (by omega)
    exact ⟨buffer, stored⟩
  · intro wide
    have overrun : rows * width < rows * element.size := Nat.mul_lt_mul_of_pos_left (by omega) some
    have bytes : 0 < rows * element.size := Nat.mul_pos some solid
    exact store_outside Stop.fault _ _ _ (List.ne_nil_of_length_pos (by omega)) (by omega)

theorem decodeBitPacked_ends {file : Bytes} {desc : ColumnDescriptor}
    {output : Bytes} {rows width : Nat}
    (checked : Checked file desc) (some : 0 < rows) (few : 56 * rows < 2 ^ 63)
    (sized : output.length = rows * width) :
    Ends (decodeBitPacked file desc output rows) (PackedFits file desc rows width)
      (PackedComplete file desc rows) := by
  have faulted (unfit : ¬ PackedFits file desc rows width) :
      Ends (.error .fault) (PackedFits file desc rows width) (PackedComplete file desc rows) :=
    ⟨fun _ => rfl, fun fits => absurd fits unfit, fun fits => absurd fits unfit⟩
  rw [decodeBitPacked]
  by_cases four : desc.offset.toNat + 4 ≤ file.length
  · rw [loadFrom, load_inside _ four, ok_bind]
    by_cases five : desc.offset.toNat + 4 + 1 ≤ file.length
    · rw [loadFrom, load_inside _ five, ok_bind]
      have unpacked : ∀ outcome, BitPackU32.decode (bytesBehind file desc 5) (sizeBehind desc 5)
          (packedBits file desc) rows = outcome →
            BitPackU32.decode (file.drop (desc.offset.toNat + 5))
          (desc.compressedSize - 5).toNat
            (leValue (slice file (desc.offset.toNat + 4) 1)) rows = outcome :=
        fun _ decoded => decoded
      dsimp only
      rcases decodePacked_cases checked some few five with ⟨partly, decoded⟩ |
        ⟨complete, windows, used, values, decoded,
        consumed, count⟩ | ⟨complete, windows, decoded⟩
      · have fits : PackedFits file desc rows width :=
          ⟨five, fun complete => absurd complete partly⟩
        rw [unpacked _ decoded, ok_bind]
        simp only [some, and_self, if_true]
        refine ⟨fun unfit => absurd fits unfit, fun _ complete =>
          absurd complete partly, fun _ _ => ?_⟩
        exact ⟨⟨.segmentCorrupted, "Failed to decode bit-packed values"⟩, rfl⟩
      · rw [unpacked _ decoded, ok_bind]
        simp only [consumed, false_and, if_false]
        have widths : PackedFits file desc rows width ↔
            (if desc.type = .u16 then 2 else 4) ≤ width :=
          ⟨fun fits => (fits.2 complete).2, fun narrow => ⟨five, fun _ => ⟨windows, narrow⟩⟩⟩
        split
        · next half =>
          rw [if_pos half] at widths
          have stored := storeTo_elements (values.map fun value =>
            (value + u32Of (slice file desc.offset.toNat 4)).toUInt16) Element.word16
              (by rw [List.length_map, count]) some
            (by decide) sized
          exact ⟨fun unfit => stored.2 fun narrow => unfit (widths.mpr narrow),
            fun fits _ => stored.1 (widths.mp fits), fun _ partly => absurd complete partly⟩
        · next word =>
          rw [if_neg word] at widths
          have stored := storeTo_elements (values.map fun value =>
            value + u32Of (slice file desc.offset.toNat 4)) Element.word32
              (by rw [List.length_map, count]) some
            (by decide) sized
          exact ⟨fun unfit => stored.2 fun narrow => unfit (widths.mpr narrow),
            fun fits _ => stored.1 (widths.mp fits), fun _ partly => absurd complete partly⟩
      · rw [unpacked _ decoded, error_bind]
        exact faulted fun fits => windows (fits.2 complete).1
    · rw [loadFrom_outside (by decide) (by omega), error_bind]
      exact faulted fun fits => five fits.1
  · rw [loadFrom_outside (by decide) (by omega), error_bind]
    exact faulted fun fits => absurd fits.1 (by omega)

theorem decodeRle_ends {file : Bytes} {desc : ColumnDescriptor} {output : Bytes} {rows width : Nat}
    (checked : Checked file desc) (some : 0 < rows) (wide : 1 ≤ width)
    (sized : output.length = rows * width) :
    Ends (decodeRle file desc output rows) True (RunsComplete file desc rows) := by
  have inside := checked.inside
  have behind : (bytesBehind file desc 0).length = file.length - desc.offset.toNat :=
    List.length_drop
  obtain ⟨used, values, decoded, few, _⟩ :=
    RLE.decodeFrom_safe Element.byte (desc.compressedSize.toNat + 1)
    (bytesBehind file desc 0) desc.compressedSize.toNat rows 0 (by omega)
  have room : rows * 1 ≤ rows * width := Nat.mul_le_mul_left _ wide
  have length : (Element.byte.putMany values).length = values.length * 1 :=
    Element.byte.length_putMany values
  obtain ⟨buffer, stored, _⟩ :=
    store_inside Stop.fault output 0 (Element.byte.putMany values) (by omega)
  have complete : RunsComplete file desc rows ↔ used ≠ 0 := by
    constructor
    · rintro ⟨same, _, again, consumed⟩
      rw [RLE.decode, decoded, Except.ok.injEq, Prod.mk.injEq] at again
      rwa [again.1]
    · exact fun consumed => ⟨used, values, decoded, consumed⟩
  rw [decodeRle, show RLE.decode Element.byte
    (file.drop desc.offset.toNat) desc.compressedSize.toNat rows = _ from
    decoded, ok_bind]
  dsimp only
  rw [storeTo, stored, ok_bind]
  by_cases consumed : used = 0
  · rw [if_pos ⟨consumed, some⟩]
    refine ⟨fun unfit => absurd trivial unfit, fun _ runs => absurd consumed (complete.mp runs),
      fun _ _ => ?_⟩
    exact ⟨⟨.segmentCorrupted, "Failed to decode RLE"⟩, rfl⟩
  · rw [if_neg fun stuck => consumed stuck.1]
    exact ⟨fun unfit => absurd trivial unfit, fun _ _ => ⟨buffer, rfl⟩,
      fun _ partly => absurd (complete.mpr consumed) partly⟩

theorem decodeColumn_ends (output : Bytes) (width : Nat) {file : Bytes}
    {desc : ColumnDescriptor} {rows : Nat}
    (checked : Checked file desc) (some : 0 < rows) (few : 56 * rows < 2 ^ 63) (wide : 1 ≤ width)
    (sized : output.length = rows * width) :
    Ends (decodeColumn file desc output rows) (ColumnFits file desc rows width)
    (ColumnComplete file desc rows) := by
  rw [decodeColumn, loadFrom, load_inside _ checked.inside, ok_bind,
    if_neg (not_not_intro checked.crc), ColumnFits, ColumnComplete]
  by_cases delta : desc.encoding = .delta
  · simp only [if_pos delta]
    rw [← sized]
    exact decodeDelta_ends some
  by_cases packed : desc.encoding = .bitPacked
  · simp only [if_neg delta, if_pos packed]
    exact decodeBitPacked_ends checked some few sized
  by_cases runs : desc.encoding = .rle ∧ desc.type = .u8
  · simp only [if_neg delta, if_neg packed, if_pos runs]
    exact decodeRle_ends checked some wide sized
  · simp only [if_neg delta, if_neg packed, if_neg runs]
    have length : (slice file desc.offset.toNat desc.compressedSize.toNat).length =
        desc.compressedSize.toNat := by
      rw [length_slice]
      have inside := checked.inside
      omega
    rw [← sized]
    by_cases room : desc.compressedSize.toNat ≤ output.length
    · obtain ⟨buffer, stored, _⟩ := store_inside Stop.fault output 0
        (slice file desc.offset.toNat desc.compressedSize.toNat) (by omega)
      exact ⟨fun unfit => absurd room unfit, fun _ _ => ⟨buffer, stored⟩,
        fun _ partly => absurd trivial partly⟩
    · refine ⟨fun _ =>
        store_outside Stop.fault _ _ _ (List.ne_nil_of_length_pos (by omega)) (by omega),
        fun fits => absurd fits room, fun fits => absurd fits room⟩

theorem checked_of_validateColumns {file : Bytes} (descriptors : List ColumnDescriptor)
    (validated : validateColumns file descriptors = .ok ()) :
    ∀ desc ∈ descriptors, Checked file desc := by
  induction descriptors with
  | nil => simp
  | cons desc rest ih =>
    rw [validateColumns] at validated
    by_cases beyond : (desc.offset + desc.compressedSize).toNat > file.length
    · rw [if_pos beyond, failWith, error_bind] at validated
      cases validated
    rw [if_neg beyond] at validated
    by_cases inside : desc.compressedSize.toNat = 0 ∨
      desc.offset.toNat + desc.compressedSize.toNat ≤ file.length
    · rw [loadFrom, load, if_pos inside, ok_bind] at validated
      by_cases crc : Crc32C.compute
        (slice file desc.offset.toNat desc.compressedSize.toNat) = desc.dataCrc
      · rw [if_neg (not_not_intro crc)] at validated
        have whole : desc.offset.toNat + desc.compressedSize.toNat ≤ file.length := by
          rcases inside with empty | inside
          · rw [UInt64.toNat_add, empty, Nat.add_zero,
              Nat.mod_eq_of_lt desc.offset.toNat_lt] at beyond
            omega
          · exact inside
        intro asked listed
        rcases List.mem_cons.mp listed with rfl | later
        · exact ⟨whole, crc⟩
        · exact ih validated asked later
      · rw [if_pos crc, failWith, error_bind] at validated
        cases validated
    · rw [loadFrom, load, if_neg inside, error_bind] at validated
      cases validated

theorem checked_of_validate {reader : SegmentReader} (validated : reader.validate = .ok ()) :
    ∀ desc ∈ reader.descriptors, Checked reader.file desc := by
  apply checked_of_validateColumns
  rw [validate] at validated
  cases columns : validateColumns reader.file reader.descriptors with
  | error stop =>
    rw [columns, error_bind] at validated
    cases validated
  | ok done => rfl

def ReachedFit (reader : SegmentReader) : List ColumnID → Prop
  | [] => True
  | column :: rest => ∀ desc, reader.descriptors[column.index]? = some desc →
    ColumnFits reader.file desc reader.rowCount (valueSize column) ∧
      (ColumnComplete reader.file desc reader.rowCount → ReachedFit reader rest)

theorem readColumns_inRange {reader : SegmentReader}
    (checked : ∀ desc ∈ reader.descriptors, Checked reader.file desc)
    (some : 0 < reader.rowCount) (few : 56 * reader.rowCount < 2 ^ 63) (columns : List ColumnID) :
    InRange (reader.readColumns columns) ↔ ReachedFit reader columns := by
  induction columns with
  | nil => exact ⟨fun _ => trivial, fun _ => inRange_ok _⟩
  | cons column rest ih =>
    rw [readColumns, readColumn, ReachedFit]
    cases found : reader.descriptors[column.index]? with
    | none =>
      dsimp only
      rw [failWith, error_bind]
      exact ⟨fun _ desc none => (Option.some_ne_none _ none.symm).elim,
        fun _ => inRange_failWith _ _⟩
    | some desc =>
      have ends :=
        decodeColumn_ends (List.replicate (reader.rowCount * valueSize column) 0) (valueSize column)
        (checked desc (List.mem_of_getElem? found)) some few
        (by cases column <;> decide) List.length_replicate
      simp only [Option.some.injEq, forall_eq']
      by_cases fits : ColumnFits reader.file desc reader.rowCount (valueSize column)
      · by_cases complete : ColumnComplete reader.file desc reader.rowCount
        · obtain ⟨buffer, decoded⟩ := ends.2.1 fits complete
          rw [decoded, ok_bind]
          simp only [fits, complete, true_and, true_implies]
          rw [← ih]
          cases reader.readColumns rest with
          | error stop => rw [error_bind]
          | ok others => rw [ok_bind]; simp [InRange, pure, Except.pure]
        · obtain ⟨status, decoded⟩ := ends.2.2 fits complete
          rw [decoded, error_bind]
          exact ⟨fun _ => ⟨fits, fun reached => absurd reached complete⟩,
            fun _ => by simp [InRange]⟩
      · rw [ends.1 fits, error_bind]
        exact ⟨fun safe => absurd rfl safe, fun reached => absurd reached.1 fits⟩

/-- Reading a file that opened and validated stays in range exactly when
every column it reaches fits. -/
theorem readAllEvents_inRange_iff {found : Option Bytes} {reader : SegmentReader}
    (_opened : openFile found = .ok reader)
    (validated : reader.validate = .ok ()) :
    InRange reader.readAllEvents ↔
      reader.rowCount = 0 ∨ 2 ^ 63 ≤ 56 * reader.rowCount ∨ ReachedFit reader ColumnID.all := by
  rw [readAllEvents]
  by_cases empty : reader.rowCount = 0
  · rw [if_pos empty]
    exact ⟨fun _ => .inl empty, fun _ => inRange_ok _⟩
  by_cases many : 2 ^ 63 ≤ 56 * reader.rowCount
  · rw [if_neg empty, if_pos many, error_bind]
    exact ⟨fun _ => .inr (.inl many), fun _ => by simp [InRange]⟩
  rw [if_neg empty, if_neg many]
  have columns :=
    readColumns_inRange (checked_of_validate validated) (by omega) (by omega) ColumnID.all
  simp only [empty, many, false_or]
  rw [← columns]
  cases reader.readColumns ColumnID.all with
  | error stop => rw [error_bind]; simp [InRange]
  | ok buffers => rw [ok_bind]; simp [InRange, pure, Except.pure]

theorem readAllEvents_inRange_quote :
    ∃ file reader, openFile (some file) = .ok reader ∧ reader.validate = .ok () ∧
      reader.readAllEvents = .ok [quoteEvent] ∧
      (reader.rowCount = 0 ∨ 2 ^ 63 ≤ 56 * reader.rowCount ∨ ReachedFit reader ColumnID.all) := by
  obtain ⟨fresh, writer, file, created, added, written⟩ := quote_written
  obtain ⟨reader, opened, validated, read⟩ :=
    writeToFile_reads (holds_of_addEvents created added) (by decide) (by decide) written
  exact ⟨file, reader, opened, validated, read,
    (readAllEvents_inRange_iff opened validated).mp (by rw [read]; exact inRange_ok _)⟩

def wideDescriptor : ColumnDescriptor :=
  ColumnDescriptor.withChecksum {
    columnId := 0, type := .u64, encoding := .raw, bitsPerValue := 64, reserved1 := 0, offset := 896
    compressedSize := 16, uncompressedSize := 16, minValue := 0, maxValue := 0, nullCount := 0
    dataCrc := Crc32C.compute (List.replicate 16 0), reserved2 := 0, descriptorCrc := 0 }

def wideHeader : SegmentHeader where
  magic := Magic.vts1
  version := Version.vts1
  schemaHash := computeCanonicalSchemaHash
  segmentId := 1
  rowCount := 1
  minTimestamp := 0
  maxTimestamp := 0
  descriptorOffset := 128
  descriptorSize := 768
  zoneMapOffset := 128
  bloomFilterOffset := 0
  bloomFilterSize := 0
  footerOffset := 0xFFFFFFFF
  reserved := Vector.replicate 52 0
  headerCrc := 0

def wideTable : Bytes := (List.replicate 12 wideDescriptor).flatMap ColumnDescriptor.toBytes

def wideFile : Bytes :=
  wideHeader.withChecksum.toBytes ++ (wideTable ++ (List.replicate 16 0 ++ []))

theorem length_wideTable : wideTable.length = 768 := by
  simp [wideTable, ColumnDescriptor.size]

theorem length_wideFile : wideFile.length = 912 := by
  simp [wideFile, length_wideTable, SegmentHeader.size]

theorem wideFile_placed : Placed wideFile wideDescriptor (List.replicate 16 0) where
  inside := by
    rw [length_wideFile]
    decide
  contents := by
    have inner : slice
        ((wideHeader.withChecksum.toBytes ++ wideTable) ++ (List.replicate 16 0 ++ [])) 896 16 =
        List.replicate 16 0 :=
      slice_append _ _ _ (by simp [length_wideTable, SegmentHeader.size]) (by simp)
    rw [List.append_assoc] at inner
    exact inner
  size := rfl
  crc := rfl

theorem readAllEvents_overruns :
    ∃ reader, openFile (some wideFile) = .ok reader ∧ reader.validate = .ok () ∧
      ¬ InRange reader.readAllEvents := by
  have long := length_wideFile
  have header : readHeader wideFile = .ok wideHeader.withChecksum :=
    readHeader_withChecksum (slice_append [] wideHeader.withChecksum.toBytes _ rfl (by simp)) (by
      rw [long]; decide) rfl rfl rfl
  have table : readDescriptors wideFile 12 128 = .ok (List.replicate 12 wideDescriptor) := by
    have intact : ∀ desc ∈ List.replicate 12 wideDescriptor, desc.checksum =
        desc.descriptorCrc := by
      intro desc member
      rw [List.eq_of_mem_replicate member]
      exact ColumnDescriptor.checksum_withChecksum _
    have contents : slice wideFile 128 wideTable.length = wideTable :=
      slice_append _ wideTable _ (by simp [SegmentHeader.size]) rfl
    have inside : 128 + wideTable.length ≤ wideFile.length := by
      rw [length_wideTable, long]
      decide
    rw [wideTable] at contents inside
    have read := readDescriptors_table _ intact contents inside
    rwa [List.length_replicate] at read
  obtain ⟨zoneMaps, zoned⟩ := readZoneMaps_inside wideFile 12 128 (by rw [long]; decide)
  have some : wideFile ≠ [] := List.ne_nil_of_length_pos (by omega)
  have descriptorStart : wideHeader.withChecksum.descriptorOffset.toNat = 128 := rfl
  have zoneStart : wideHeader.withChecksum.zoneMapOffset.toNat = 128 := rfl
  have filtered : readBloomFilter wideFile wideHeader.withChecksum = .ok [] := rfl
  refine ⟨⟨wideFile, wideHeader.withChecksum, List.replicate 12 wideDescriptor,
    zoneMaps, []⟩, ?_, ?_, ?_⟩
  · simp only [openFile, if_neg some, header, descriptorStart, zoneStart, columnCount,
      ok_bind, table, zoned, filtered]
    rfl
  · have columns : validateColumns wideFile (List.replicate 12 wideDescriptor) = .ok () := by
      apply validateColumns_placed _ (by rw [long]; decide)
      intro desc member
      exact ⟨_, List.eq_of_mem_replicate member ▸ wideFile_placed⟩
    have footer : wideHeader.withChecksum.footerOffset.toNat = 0xFFFFFFFF := rfl
    simp only [validate, columns, ok_bind, footer, long]
    rfl
  · have first : decodeColumn wideFile wideDescriptor (List.replicate 8 0) 1 = .error .fault := by
      rw [wideFile_placed.decodeColumn_eq]
      rfl
    generalize made : SegmentReader.mk wideFile wideHeader.withChecksum
      (List.replicate 12 wideDescriptor) zoneMaps [] =
      reader
    have rows : reader.rowCount = 1 := by rw [← made]; rfl
    have column : reader.readColumn .exchangeTsNs (List.replicate (1 * 8) 0) 1 = .error .fault := by
      rw [readColumn, ← made]
      exact first
    have columns : reader.readColumns ColumnID.all = .error .fault := by
      rw [ColumnID.all, readColumns, rows, valueSize, column, error_bind]
    rw [readAllEvents, if_neg (by omega), if_neg (by omega), columns, error_bind]
    exact fun safe => safe rfl

end VectorTick.SegmentReader
