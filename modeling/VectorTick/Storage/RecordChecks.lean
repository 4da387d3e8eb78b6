import VectorTick.Common.CrcDetection
import VectorTick.Storage.FileFormat

/-! The checksums of the fixed records, as conditions on their bytes.

Each record ends in its checksum. The reader parses the record, clears the checksum and takes it
again over the bytes of the record: over all of them for a header, over all but the last four for
a descriptor or a footer.
-/

set_option autoImplicit false

namespace Foundation

theorem glue8 {ahead rest : Bytes} (enough : 1 ≤ ahead.length) (behind : rest = ahead.drop 1) :
    ahead.headD 0 :: rest = ahead := by
  cases ahead with
  | nil => simp at enough
  | cons first ahead => rw [behind]; rfl

theorem glue32 {ahead rest : Bytes} (enough : 4 ≤ ahead.length) (behind : rest = ahead.drop 4) :
    u32 (u32Of (ahead.take 4)) ++ rest = ahead := by
  rw [u32_u32Of (by rw [List.length_take]; omega), behind, List.take_append_drop]

theorem glue64 {ahead rest : Bytes} (enough : 8 ≤ ahead.length) (behind : rest = ahead.drop 8) :
    u64 (u64Of (ahead.take 8)) ++ rest = ahead := by
  rw [u64_u64Of (by rw [List.length_take]; omega), behind, List.take_append_drop]

theorem glueBlock {count : Nat} {ahead rest : Bytes} (enough : count ≤ ahead.length)
    (behind : rest = ahead.drop count) :
    (popBlock count ahead).1.toList ++ rest = ahead := by
  have front : (popBlock count ahead).1.toList = ahead.take count := by
    apply List.ext_getElem?
    intro i
    by_cases inside : i < count
    · rw [List.getElem?_take_of_lt inside]
      simp [popBlock, inside, show i < ahead.length by omega]
    · rw [List.getElem?_eq_none (by simp; omega), List.getElem?_eq_none (by simp; omega)]
  rw [front, behind, List.take_append_drop]

/-- The last word of a record. -/
theorem glueLast {ahead : Bytes} (size : ahead.length = 4) :
    u32 (u32Of (ahead.take 4)) = ahead := by
  rw [List.take_of_length_le (by omega), u32_u32Of size]

end Foundation

namespace VectorTick.Vts1

open Foundation

theorem SegmentHeader.toBytes_ofBytes {raw : Bytes} (size : raw.length = 128) :
    (ofBytes raw).toBytes = raw := by
  unfold ofBytes toBytes pop32 pop64
  dsimp only
  refine glue32 ?_ (glue32 ?_
    (glue64 ?_ (glue64 ?_ (glue64 ?_ (glue64 ?_ (glue64 ?_ (glue32 ?_ (glue32 ?_ (glue32 ?_
    (glue32 ?_ (glue32 ?_ (glue32 ?_ (glueBlock ?_ (glueLast ?_))))))))))))))
  all_goals simp [popBlock, size]

theorem ColumnDescriptor.toBytes_ofBytes {raw : Bytes} (size : raw.length = 64) :
    (ofBytes raw).toBytes = raw := by
  unfold ofBytes toBytes bodyBytes pop32 pop64 pop8
  dsimp only
  simp only [List.append_assoc, List.cons_append]
  refine glue32 ?_
    (glue8 ?_ (glue8 ?_ (glue8 ?_ (glue8 ?_ (glue64 ?_ (glue64 ?_ (glue64 ?_ (glue64 ?_ (glue64 ?_
    (glue32 ?_ (glue32 ?_ (glue32 ?_ (glueLast ?_)))))))))))))
  all_goals simp [size]

theorem SegmentFooter.toBytes_ofBytes {raw : Bytes} (size : raw.length = 128) :
    (ofBytes raw).toBytes = raw := by
  unfold ofBytes toBytes bodyBytes pop32 pop64
  dsimp only
  simp only [List.append_assoc]
  refine glue32 ?_ (glue32 ?_
    (glue64 ?_ (glue64 ?_ (glue64 ?_ (glue64 ?_ (glue64 ?_ (glue64 ?_ (glue64 ?_ (glue32 ?_
    (glue32 ?_ (glueBlock ?_ (glueLast ?_))))))))))))
  all_goals simp [popBlock, size]

/-- A record of `size + 4` bytes whose last four are the checksum of the
others, which `tail` follows. -/
def Sealed (size : Nat) (tail raw : Bytes) : Prop :=
  Crc32C.compute (raw.take size ++ tail) = u32Of (raw.drop size)

/-- All fields of a header but the checksum, which is the last. -/
def SegmentHeader.bodyBytes (header : SegmentHeader) : Bytes :=
  u32 header.magic ++ (u32 header.version ++ (u64 header.schemaHash ++ (u64 header.segmentId ++
    (u64 header.rowCount ++
      (u64 header.minTimestamp ++ (u64 header.maxTimestamp ++ (u32 header.descriptorOffset ++
    (u32 header.descriptorSize ++ (u32 header.zoneMapOffset ++ (u32 header.bloomFilterOffset ++
    (u32 header.bloomFilterSize ++ (u32 header.footerOffset ++ header.reserved.toList))))))))))))

theorem SegmentHeader.toBytes_eq (header : SegmentHeader) :
    header.toBytes = header.bodyBytes ++ u32 header.headerCrc := by
  simp only [toBytes, bodyBytes, List.append_assoc]

theorem SegmentHeader.length_bodyBytes (header : SegmentHeader) :
    header.bodyBytes.length = 124 := by
  simp [bodyBytes]

theorem SegmentHeader.checksum_eq (header : SegmentHeader) :
    header.checksum = Crc32C.compute (header.bodyBytes ++ u32 0) := by
  have same : { header with headerCrc := 0 }.bodyBytes = header.bodyBytes := rfl
  rw [checksum, toBytes_eq, same]

theorem SegmentHeader.checksum_ofBytes {raw : Bytes} (size : raw.length = 128) :
    (ofBytes raw).checksum = (ofBytes raw).headerCrc ↔ Sealed 124 (u32 0) raw := by
  have split : raw = (ofBytes raw).bodyBytes ++ u32 (ofBytes raw).headerCrc := by
    rw [← toBytes_eq, toBytes_ofBytes size]
  have front : raw.take 124 = (ofBytes raw).bodyBytes := by
    conv_lhs => rw [split, List.take_left' (length_bodyBytes _)]
  have last : u32Of (raw.drop 124) = (ofBytes raw).headerCrc := by
    conv_lhs => rw [split, List.drop_left' (length_bodyBytes _), u32Of_u32]
  rw [Sealed, checksum_eq, front, last]

theorem ColumnDescriptor.checksum_ofBytes {raw : Bytes} (size : raw.length = 64) :
    (ofBytes raw).cleared.checksum = (ofBytes raw).descriptorCrc ↔ Sealed 60 [] raw := by
  have split : raw = (ofBytes raw).bodyBytes ++ u32 (ofBytes raw).descriptorCrc :=
    (toBytes_ofBytes size).symm
  have front : raw.take 60 = (ofBytes raw).bodyBytes := by
    conv_lhs => rw [split, List.take_left' (length_bodyBytes _)]
  have last : u32Of (raw.drop 60) = (ofBytes raw).descriptorCrc := by
    conv_lhs => rw [split, List.drop_left' (length_bodyBytes _), u32Of_u32]
  rw [Sealed, checksum_cleared, checksum_eq, front, last, List.append_nil]

theorem SegmentFooter.checksum_ofBytes {raw : Bytes} (size : raw.length = 128) :
    (ofBytes raw).cleared.checksum = (ofBytes raw).footerCrc ↔ Sealed 124 [] raw := by
  have split : raw = (ofBytes raw).bodyBytes ++ u32 (ofBytes raw).footerCrc :=
    (toBytes_ofBytes size).symm
  have front : raw.take 124 = (ofBytes raw).bodyBytes := by
    conv_lhs => rw [split, List.take_left' (length_bodyBytes _)]
  have last : u32Of (raw.drop 124) = (ofBytes raw).footerCrc := by
    conv_lhs => rw [split, List.drop_left' (length_bodyBytes _), u32Of_u32]
  rw [Sealed, checksum_cleared, checksum_eq, front, last, List.append_nil]

/-- A block with one byte changed has another checksum, whatever follows it. -/
theorem compute_set_ne {block : Bytes} {pos : Nat} {byte : UInt8} (inside : pos < block.length)
    (differ : block[pos]? ≠ some byte) (tail : Bytes) :
    Crc32C.compute (block.set pos byte ++ tail) ≠ Crc32C.compute (block ++ tail) := by
  have other : byte ≠ block[pos] := by
    intro same
    exact differ (by rw [List.getElem?_eq_getElem inside, same])
  have before : block = block.take pos ++ block[pos] :: block.drop (pos + 1) := by
    rw [List.getElem_cons_drop, List.take_append_drop]
  have after : block.set pos byte = block.take pos ++ byte :: block.drop (pos + 1) :=
    List.set_eq_take_append_cons_drop.trans (if_pos inside)
  have changed := Crc32C.compute_ne_of_byte other (block.take pos) (block.drop (pos + 1) ++ tail)
  rwa [← List.cons_append, ← List.append_assoc, ← after, ← List.cons_append,
    ← List.append_assoc, ← before] at changed

theorem Sealed.broken {size pos : Nat} {tail raw : Bytes} {byte : UInt8}
    (sealed : Sealed size tail raw)
    (length : raw.length = size + 4) (inside : pos < size + 4) (differ : raw[pos]? ≠ some byte) :
    ¬ Sealed size tail (raw.set pos byte) := by
  unfold Sealed at sealed ⊢
  by_cases body : pos < size
  · -- The checksum is the old one and the body is not.
    rw [List.drop_set_of_lt body, List.take_set, ← sealed]
    refine compute_set_ne (by rw [List.length_take]; omega) ?_ tail
    rwa [List.getElem?_take_of_lt body]
  · rw [List.drop_set, if_neg body, List.take_set_of_le (by omega), sealed]
    intro same
    have bytes := congrArg u32 same
    rw [u32_u32Of (by rw [List.length_drop]; omega),
      u32_u32Of (by rw [List.length_set, List.length_drop]; omega)] at bytes
    have here := congrArg (fun bytes => bytes[pos - size]?) bytes
    simp only [List.getElem?_drop] at here
    rw [List.getElem?_set_self (by rw [List.length_drop]; omega),
      Nat.add_sub_cancel' (by omega)] at here
    exact differ here

end VectorTick.Vts1
