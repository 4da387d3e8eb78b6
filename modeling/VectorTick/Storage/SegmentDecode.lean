import VectorTick.Storage.SegmentLayout
import VectorTick.Storage.SegmentReader

/-! Reading a column block back.

For each encoding: if a block of the writer stands in a file where a descriptor says, decoding
under that descriptor fills the column buffer with the values.
-/

set_option autoImplicit false

namespace VectorTick.SegmentReader

open Foundation Codec Vts1 SegmentWriter

/-- A block stands in a file where a descriptor says. -/
structure Placed (file : Bytes) (desc : ColumnDescriptor) (block : Bytes) : Prop where
  inside : desc.offset.toNat + block.length ≤ file.length
  contents : slice file desc.offset.toNat block.length = block
  size : desc.compressedSize.toNat = block.length
  crc : desc.dataCrc = Crc32C.compute block

namespace Placed

variable {file block : Bytes} {desc : ColumnDescriptor}

theorem load (placed : Placed file desc block) :
    loadFrom file desc.offset.toNat desc.compressedSize.toNat = .ok block := by
  rw [loadFrom, placed.size, load_inside _ placed.inside, placed.contents]

theorem ahead (placed : Placed file desc block) :
    file.drop desc.offset.toNat = block ++ file.drop (desc.offset.toNat + block.length) := by
  have split := List.take_append_drop block.length (file.drop desc.offset.toNat)
  rw [List.drop_drop] at split
  rw [← split]
  congr 1
  exact placed.contents

theorem decodeColumn_eq (placed : Placed file desc block) (output : Bytes) (numValues : Nat) :
    decodeColumn file desc output numValues =
      if desc.encoding = .delta then decodeDelta file desc output numValues
      else if desc.encoding = .bitPacked then decodeBitPacked file desc output numValues
      else if desc.encoding = .rle ∧ desc.type = .u8 then decodeRle file desc output numValues
      else storeTo output 0 block := by
  simp only [decodeColumn, placed.load, placed.crc, ne_eq, not_true_eq_false,
    if_false, bind, Except.bind]

end Placed

theorem store_whole {output block : Bytes}
    (size : block.length = output.length) : storeTo output 0 block = .ok block := by
  obtain ⟨after, stored, wrote⟩ := store_inside Stop.fault output 0 block (by omega)
  rw [storeTo, stored, wrote.eq_of_length size]

/-- Reading inside a block, a given distance behind the pointer. -/
theorem load_part (before : Bytes) (offset : Nat) {file piece after : Bytes} {base count : Nat}
    (ahead : file.drop base = before ++ (piece ++ after)) (start : offset = before.length)
    (size : count = piece.length)
    (some : piece ≠ []) : loadFrom file (base + offset) count = .ok piece := by
  have total := congrArg List.length ahead
  simp only [List.length_drop, List.length_append] at total
  have positive := List.length_pos_iff.mpr some
  rw [loadFrom, load_inside _ (by omega), slice, ← List.drop_drop, ahead]
  exact congrArg Except.ok (slice_append before piece after start size)

theorem drop_part {file before rest : Bytes} {base offset : Nat}
    (ahead : file.drop base = before ++ rest)
    (start : offset = before.length) : file.drop (base + offset) = rest := by
  rw [← List.drop_drop, ahead, start, List.drop_left]

theorem decodeColumn_raw {T : Type} (element : Element T) {file : Bytes}
    {desc : ColumnDescriptor} {values : List T}
    (placed : Placed file desc (element.putMany values))
    (encoding : desc.encoding = .raw) {numValues : Nat}
    (count : values.length = numValues) {output : Bytes}
    (room : output.length = numValues * element.size) :
    decodeColumn file desc output numValues = .ok (element.putMany values) := by
  subst count
  rw [placed.decodeColumn_eq, encoding, if_neg (by decide), if_neg (by decide),
    if_neg (fun both => absurd both.1 (by decide)),
    store_whole (by rw [room, element.length_putMany])]

/-- The values a run of stored differences stands for. -/
def accumulate (delta : UInt64 → UInt64) : UInt64 → List UInt64 → List UInt64
  | _, [] => []
  | previous, raw :: rest => (previous + delta raw) :: accumulate delta (previous + delta raw) rest

theorem length_accumulate (delta : UInt64 → UInt64) (previous : UInt64) (deltas : List UInt64) :
    (accumulate delta previous deltas).length = deltas.length := by
  induction deltas generalizing previous with
  | nil => rfl
  | cons raw rest ih => rw [accumulate, List.length_cons, ih, List.length_cons]

theorem accumulate_differences (previous : UInt64) (rest : List UInt64) :
    accumulate id previous (differences (previous :: rest)) = rest := by
  induction rest generalizing previous with
  | nil => rfl
  | cons next rest ih =>
    have sum : previous + (next - previous) = next := by grind
    rw [differences, accumulate, id_eq, sum, ih]

theorem accumulate_signed (previous : Int64) (rest : List Int64) :
    accumulate (fun raw => (ZigZag.decode raw).toUInt64) previous.toUInt64
      ((differences (previous :: rest)).map ZigZag.encode) = rest.map Int64.toUInt64 := by
  induction rest generalizing previous with
  | nil => rfl
  | cons next rest ih =>
    have sum : previous.toUInt64 + (next - previous).toUInt64 = next.toUInt64 := by
      rw [← Int64.toUInt64_add]
      congr 1
      grind
    rw [differences, List.map_cons, accumulate, ZigZag.decode_encoded, sum, ih, List.map_cons]

theorem decodeDeltas_varInts (file : Bytes) (desc : ColumnDescriptor)
    (output : Bytes) (message : String)
    (delta : UInt64 → UInt64)
    (deltas : List UInt64) (i offset : Nat) (previous : UInt64) {after : Bytes}
    (ahead : file.drop (desc.offset.toNat + offset) = varInts deltas ++ after)
    (size : desc.compressedSize.toNat = offset + (varInts deltas).length)
    (room : 8 * i + 8 * deltas.length ≤ output.length) :
    ∃ final, decodeDeltas file desc message delta deltas.length i offset
      previous output = .ok final ∧
      Extends output final (8 * i) (Element.word64.putMany (accumulate delta previous deltas)) := by
  induction deltas generalizing i offset previous output with
  | nil => exact ⟨output, rfl, Extends.refl output (8 * i)⟩
  | cons raw rest ih =>
    rw [varInts_cons, List.append_assoc] at ahead
    rw [varInts_cons, List.length_append] at size
    rw [List.length_cons] at room
    have bounded := desc.compressedSize.toNat_lt
    have positive := VarIntU.length_bytes_pos raw
    have told : (desc.compressedSize - UInt64.ofNat offset).toNat = (VarIntU.bytes raw).length +
      (varInts rest).length := by
      rw [UInt64.toNat_sub_of_le _ _ (by rw [UInt64.le_iff_toNat_le, UInt64.toNat_ofNat']; omega),
        UInt64.toNat_ofNat']
      omega
    have read : VarIntU.decode (file.drop (desc.offset.toNat + offset))
      (desc.compressedSize - UInt64.ofNat offset).toNat =
        .ok ((VarIntU.bytes raw).length, raw) := by
      rw [ahead]
      exact VarIntU.decode_bytes raw _ (by omega)
    obtain ⟨middle, stored, wrote⟩ :=
      store_inside Stop.fault output (8 * i) (u64 (previous + delta raw))
      (by rw [length_u64]; omega)
    have length := wrote.length
    obtain ⟨final, loop, more⟩ := ih middle (i + 1) (offset + (VarIntU.bytes raw).length)
      (previous + delta raw) (by rw [← Nat.add_assoc]; exact drop_part ahead rfl)
        (by omega) (by omega)
    refine ⟨final, ?_, ?_⟩
    · rw [List.length_cons, decodeDeltas, read]
      simp only [bind, Except.bind, if_neg (by omega : ¬ (VarIntU.bytes raw).length = 0),
        storeTo, stored, loop]
    · have behind : Extends middle final (8 * i + (u64 (previous + delta raw)).length)
          (Element.word64.putMany (accumulate delta (previous + delta raw) rest)) := by
        rwa [length_u64, show 8 * i + 8 = 8 * (i + 1) by ring]
      have together := wrote.trans behind
      simpa [accumulate, Element.putMany, Element.word64] using together

/-- The delta branch on a block of a first word and stored differences. -/
theorem decodeDelta_varInts (output : Bytes) {file : Bytes}
    {desc : ColumnDescriptor} (first : UInt64)
    (deltas : List UInt64) (placed : Placed file desc (u64 first ++ varInts deltas))
    (room : output.length = 8 * (deltas.length + 1)) (delta : UInt64 → UInt64)
    (kind : (desc.type = .i64 ∧ delta = fun raw => (ZigZag.decode raw).toUInt64) ∨
      (desc.type ≠ .i64 ∧ delta = id)) :
    decodeDelta file desc output (deltas.length + 1) =
      .ok (Element.word64.putMany (first :: accumulate delta first deltas)) := by
  have ahead := placed.ahead
  rw [List.append_assoc] at ahead
  have word : loadFrom file desc.offset.toNat 8 = .ok (u64 first) :=
    load_part [] 0 ahead rfl (length_u64 first).symm
      (List.ne_nil_of_length_pos (by rw [length_u64]; decide))
  have size := placed.size
  rw [List.length_append, length_u64] at size
  obtain ⟨one, stored, wrote⟩ := store_inside Stop.fault output 0 (u64 first)
    (by rw [length_u64]; omega)
  have length := wrote.length
  have loop := fun message => decodeDeltas_varInts file desc one message delta deltas 1 8 first
    (drop_part ahead (length_u64 first).symm) size (by omega)
  have whole : ∀ final, Extends one final (8 * 1)
      (Element.word64.putMany (accumulate delta first deltas)) →
      final = Element.word64.putMany (first :: accumulate delta first deltas) := by
    intro final more
    have behind : Extends one final (0 + (u64 first).length)
      (Element.word64.putMany (accumulate delta first deltas)) := by
      rwa [length_u64, Nat.zero_add]
    have together := wrote.trans behind
    have block : u64 first ++ Element.word64.putMany (accumulate delta first deltas) =
        Element.word64.putMany (first :: accumulate delta first deltas) := by
      simp [Element.putMany, Element.word64]
    rw [block] at together
    apply together.eq_of_length
    rw [Element.length_putMany, List.length_cons, length_accumulate, room]
    change (deltas.length + 1) * 8 = _
    ring
  rw [decodeDelta, word]
  simp only [bind, Except.bind, u64Of_u64, if_pos (Nat.succ_pos _), storeTo,
    stored, Nat.add_sub_cancel]
  rcases kind with ⟨type, rfl⟩ | ⟨type, rfl⟩
  · obtain ⟨final, run, more⟩ := loop "Failed to decode i64 delta"
    rw [if_pos type, run, whole final more]
  · obtain ⟨final, run, more⟩ := loop "Failed to decode u64 delta"
    rw [if_neg type, run, whole final more]

theorem decodeColumn_delta {file : Bytes} {desc : ColumnDescriptor} {values : List UInt64}
    (nonempty : values ≠ [])
    (placed : Placed file desc (deltaBlock values)) (encoding : desc.encoding = .delta)
    (type : desc.type ≠ .i64)
    {numValues : Nat}
    (count : values.length = numValues) {output : Bytes} (room : output.length = numValues * 8) :
    decodeColumn file desc output numValues = .ok (Element.word64.putMany values) := by
  subst count
  cases values with
  | nil => exact absurd rfl nonempty
  | cons first rest =>
    have count := length_differences (first :: rest)
    rw [List.length_cons, Nat.add_sub_cancel] at count
    rw [List.length_cons] at room
    have decoded :=
      decodeDelta_varInts output first (differences (first :: rest)) placed (by omega) id
      (.inr ⟨type, rfl⟩)
    rw [placed.decodeColumn_eq, if_pos encoding, List.length_cons, ← count,
      decoded, accumulate_differences]

theorem decodeColumn_signed {file : Bytes} {desc : ColumnDescriptor} {values : List Int64}
    (nonempty : values ≠ [])
    (placed : Placed file desc (signedBlock values)) (encoding : desc.encoding = .delta)
    (type : desc.type = .i64)
    {numValues : Nat}
    (count : values.length = numValues) {output : Bytes} (room : output.length = numValues * 8) :
    decodeColumn file desc output numValues = .ok (Element.signed64.putMany values) := by
  subst count
  cases values with
  | nil => exact absurd rfl nonempty
  | cons first rest =>
    have count : ((differences (first :: rest)).map ZigZag.encode).length = rest.length := by
      rw [List.length_map, length_differences, List.length_cons, Nat.add_sub_cancel]
    rw [List.length_cons] at room
    have decoded := decodeDelta_varInts output first.toUInt64
      ((differences (first :: rest)).map ZigZag.encode) placed (by omega) _ (.inl ⟨type, rfl⟩)
    have same : Element.word64.putMany ((first :: rest).map Int64.toUInt64) =
        Element.signed64.putMany (first :: rest) := by
      simp [Element.putMany, Element.word64, Element.signed64, List.flatMap_map]
    rw [placed.decodeColumn_eq, if_pos encoding, List.length_cons, ← count, decoded,
      accumulate_signed, ← same, List.map_cons]

/-- The packed branch on a block of the writer, up to the final conversion. -/
theorem decodeBitPacked_block (first : UInt32) (rest : List UInt32) {file : Bytes}
    {desc : ColumnDescriptor}
    (placed : Placed file desc (packedBlock first rest))
    (counted : rest.length + 1 < 2 ^ 58) (output : Bytes) :
    decodeBitPacked file desc output (rest.length + 1) =
      if desc.type = .u16 then
        storeTo output 0 (Element.word16.putMany ((first :: rest).map UInt32.toUInt16))
      else storeTo output 0 (Element.word32.putMany (first :: rest)) := by
  have least := minElement_spec first rest
  have greatest := maxElement_spec first rest
  have ahead := placed.ahead
  have size := placed.size
  rw [length_packedBlock] at size
  have sizeWord := desc.compressedSize.toNat_lt
  rw [packedBlock] at ahead
  simp only [List.append_assoc] at ahead
  -- From here on the reference, the width and the packed offsets are named.
  generalize reference : minElement first rest = minVal at *
  generalize width : BitPackU32.bitsRequired (maxElement first rest - minVal) = bits at *
  have wide : 1 ≤ bits := width ▸ BitPackU32.bitsRequired_pos _
  have narrow : bits ≤ 32 := width ▸ BitPackU32.bitsRequired_le _
  have small : ∀ value ∈ (first :: rest).map (fun value => value - minVal),
      value.toNat < 2 ^ bits := by
    intro value member
    obtain ⟨original, selected, rfl⟩ := List.mem_map.mp member
    have low := UInt32.le_iff_toNat_le.mp (least.2 original selected)
    have high := UInt32.le_iff_toNat_le.mp (greatest.2 original selected)
    have represented := BitPackU32.lt_two_pow_bitsRequired (maxElement first rest - minVal)
    rw [width, UInt32.toNat_sub_of_le _ _ (UInt32.le_iff_toNat_le.mpr (by omega))] at represented
    rw [UInt32.toNat_sub_of_le _ _ (least.2 original selected)]
    omega
  have readReference : loadFrom file desc.offset.toNat 4 = .ok (u32 minVal) :=
    load_part [] 0 ahead rfl (length_u32 minVal).symm
      (List.ne_nil_of_length_pos (by rw [length_u32]; decide))
  have readWidth : loadFrom file (desc.offset.toNat + 4) 1 = .ok [UInt8.ofNat bits] :=
    load_part _ _ ahead (length_u32 minVal).symm rfl (by simp)
  have widthValue : leValue [UInt8.ofNat bits] = bits := by
    rw [leValue, leValue, UInt8.toNat_ofNat', Nat.mod_eq_of_lt (by omega)]
    omega
  have behind : file.drop (desc.offset.toNat + 5) =
      BitPackU32.bytes ((first :: rest).map fun value => value - minVal) bits ++
        file.drop (desc.offset.toNat + (packedBlock first rest).length) := by
    rw [← List.append_assoc] at ahead
    rw [packedBlock, reference, width]
    exact drop_part ahead (by simp)
  have told : (desc.compressedSize - 5).toNat =
      BitPackU32.maxEncodedSize (rest.length + 1) bits := by
    rw [UInt64.toNat_sub_of_le _ _
      (by rw [UInt64.le_iff_toNat_le, size]; change 5 ≤ _; omega), size]
    change 5 + _ - 5 = _
    omega
  have count : ((first :: rest).map fun value => value - minVal).length = rest.length + 1 := by simp
  have word : (rest.length + 1) * bits + 7 < 2 ^ 64 := by
    have product := Nat.mul_le_mul_left (rest.length + 1) narrow
    omega
  have decoded := BitPackU32.decode_bytes ((first :: rest).map fun value => value - minVal) bits
    (BitPackU32.maxEncodedSize (rest.length + 1) bits)
    (file.drop (desc.offset.toNat + (packedBlock first rest).length)) wide narrow small
      (by rw [count])
    (by rw [count]; omega) (by rw [count]; exact word)
  rw [count] at decoded
  have some : BitPackU32.maxEncodedSize (rest.length + 1) bits ≠ 0 := by
    have product := Nat.mul_le_mul (by omega : 1 ≤ rest.length + 1) wide
    rw [BitPackU32.maxEncodedSize_eq wide word]
    omega
  have restored : ((first :: rest).map fun value => value - minVal).map
      (fun value => value + minVal) =
      first :: rest := by
    rw [List.map_map]
    conv => rhs; rw [← List.map_id (first :: rest)]
    apply List.map_congr_left
    intro value _
    simp
  rw [decodeBitPacked, readReference]
  simp only [bind, Except.bind, readWidth, widthValue, behind, told, decoded, u32Of_u32,
    some, false_and, if_false]
  have narrowed : ((first :: rest).map fun value => value - minVal).map
      (fun value => (value + minVal).toUInt16) =
      (first :: rest).map UInt32.toUInt16 := by
    conv => rhs; rw [← restored]
    rw [List.map_map (g := UInt32.toUInt16)]
    rfl
  rw [narrowed, restored]

theorem decodeColumn_words {file : Bytes} {desc : ColumnDescriptor} {values : List UInt32}
    (nonempty : values ≠ [])
    (counted : values.length < 2 ^ 58) (placed : Placed file desc (wordBlock values))
    (encoding : desc.encoding = .bitPacked) (type : desc.type ≠ .u16) {numValues : Nat}
    (count : values.length = numValues) {output : Bytes} (room : output.length = numValues * 4) :
    decodeColumn file desc output numValues = .ok (Element.word32.putMany values) := by
  subst count
  cases values with
  | nil => exact absurd rfl nonempty
  | cons first rest =>
    rw [placed.decodeColumn_eq, if_neg (by rw [encoding]; decide), if_pos encoding,
      List.length_cons, decodeBitPacked_block _ _ placed counted, if_neg type,
      store_whole (by rw [room, Element.length_putMany]; rfl)]

theorem decodeColumn_halves {file : Bytes} {desc : ColumnDescriptor} {values : List UInt16}
    (nonempty : values ≠ [])
    (counted : values.length < 2 ^ 58)
    (placed : Placed file desc (wordBlock (values.map UInt16.toUInt32)))
    (encoding : desc.encoding = .bitPacked) (type : desc.type = .u16) {numValues : Nat}
    (count : values.length = numValues) {output : Bytes} (room : output.length = numValues * 2) :
    decodeColumn file desc output numValues = .ok (Element.word16.putMany values) := by
  subst count
  cases values with
  | nil => exact absurd rfl nonempty
  | cons first rest =>
    have narrowed : ((first :: rest).map UInt16.toUInt32).map UInt32.toUInt16 = first :: rest := by
      rw [List.map_map]
      conv => rhs; rw [← List.map_id (first :: rest)]
      apply List.map_congr_left
      intro value _
      simp
    have decoded := decodeBitPacked_block first.toUInt32 (rest.map UInt16.toUInt32) placed
      (by rw [List.length_map]; exact counted) output
    rw [List.length_map, if_pos type, ← List.map_cons, narrowed] at decoded
    rw [placed.decodeColumn_eq, if_neg (by rw [encoding]; decide), if_pos encoding,
      List.length_cons, decoded, store_whole (by rw [room, Element.length_putMany]; rfl)]

theorem decodeColumn_rle {file : Bytes} {desc : ColumnDescriptor} {values : List UInt8}
    (nonempty : values ≠ [])
    (placed : Placed file desc (RLE.bytes Element.byte values)) (encoding : desc.encoding = .rle)
    (type : desc.type = .u8) {numValues : Nat}
    (count : values.length = numValues) {output : Bytes} (room : output.length = numValues * 1) :
    decodeColumn file desc output numValues = .ok (Element.byte.putMany values) := by
  subst count
  have positive := RLE.length_bytes_pos Element.byte nonempty
  have decoded := RLE.decode_bytes Element.byte values (file.drop (desc.offset.toNat +
    (RLE.bytes Element.byte values).length)) (Nat.le_refl _)
  rw [← placed.ahead] at decoded
  rw [placed.decodeColumn_eq, if_neg (by rw [encoding]; decide), if_neg (by rw [encoding]; decide),
    if_pos ⟨encoding, type⟩, decodeRle, placed.size]
  simp only [bind, Except.bind, decoded,
    store_whole (show (Element.byte.putMany values).length = output.length by
    rw [room, Element.length_putMany]; rfl)]
  rw [if_neg (by omega)]
  rfl

end VectorTick.SegmentReader
