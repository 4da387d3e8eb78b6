import VectorTick.Common.CrcDetection
import VectorTick.Protocol.Acceptance

/-! A frame with one byte changed is refused.

The header is read, its checksum cleared, and written again to take the checksum. What is written
again is what was read, so the checksum is one over the bytes of the frame. Only the payload length
is out of its reach: it says which bytes the checksum covers.
-/

set_option autoImplicit false

namespace VectorTick.Vtp1

open Foundation

/-- The header bytes with the checksum field zero. -/
def clearedBytes (data : Bytes) : Bytes := slice data 0 32 ++ (be32 0 ++ slice data 36 4)

theorem layout_readHeader {data : Bytes} (enough : FrameHeader.size ≤ data.length) :
    { Frame.readHeader data with crc32c := 0 }.layout.bytes = clearedBytes data := by
  rw [FrameHeader.size] at enough
  have word {offset : Nat} (inside : offset + 4 ≤ 40) : be32 (be32Of (slice data offset 4)) =
      slice data offset 4 :=
    be32_be32Of (length_slice (by omega))
  have double {offset : Nat} (inside : offset + 8 ≤ 40) : be64 (be64Of (slice data offset 8)) =
      slice data offset 8 :=
    be64_be64Of (length_slice (by omega))
  have half : be16 (be16Of (slice data 6 2)) = slice data 6 2 :=
    be16_be16Of (length_slice (by omega))
  have front : slice data 0 (4 + (1 + (1 + (2 + (4 + (4 + (8 + 8))))))) =
      slice data 0 4 ++ (slice data 4 1 ++
      (slice data 5 1 ++
        (slice data 6 2 ++ (slice data 8 4 ++ (slice data 12 4 ++ (slice data 16 8 ++
        slice data 24 8)))))) := by
    rw [slice_add, slice_add, slice_add, slice_add, slice_add, slice_add, slice_add]
  simp only [Frame.readHeader, FrameHeader.layout, Layout.bytes, List.flatMap_cons,
    List.flatMap_nil, List.append_nil, word (show 0 + 4 ≤ 40 by decide),
    word (show 8 + 4 ≤ 40 by decide), word (show 12 + 4 ≤ 40 by decide),
    word (show 36 + 4 ≤ 40 by decide), double (show 16 + 8 ≤ 40 by decide),
    double (show 24 + 8 ≤ 40 by decide), half, slice_byte (show 4 < data.length by omega),
    slice_byte (show 5 < data.length by omega)]
  rw [clearedBytes, show 32 = 4 + (1 + (1 + (2 + (4 + (4 + (8 + 8)))))) from rfl, front]
  simp only [List.append_assoc]

/-- The checksum a reader takes of a frame, over its bytes. -/
def takenCrc (data : Bytes) (length : Nat) : UInt32 :=
  Crc32C.computeFrom (Crc32C.compute (clearedBytes data)) (slice data FrameHeader.size length)

theorem computeCrc_readHeader {data : Bytes} (enough : FrameHeader.size ≤ data.length) :
    Frame.computeCrc (Frame.readHeader data) (data.drop FrameHeader.size) =
      takenCrc data (Frame.readHeader data).payloadLength.toNat := by
  rw [Frame.computeCrc, layout_readHeader enough, takenCrc, slice]
  split
  · rfl
  · next none =>
    have zero : (Frame.readHeader data).payloadLength.toNat = 0 := by
      rw [gt_iff_lt, UInt32.lt_iff_toNat_lt] at none
      exact Nat.eq_zero_of_not_pos none
    rw [zero, List.take_zero, Crc32C.computeFrom, if_pos rfl]

namespace Decoder

theorem intact_crc {data : Bytes} (intact : Intact data) :
    takenCrc data (Frame.readHeader data).payloadLength.toNat = be32Of (slice data 32 4) := by
  obtain ⟨enough, _, valid⟩ := intact
  rw [← computeCrc_readHeader enough]
  unfold Frame.validate at valid
  obtain ⟨_, valid⟩ := guard_ok valid
  obtain ⟨_, valid⟩ := guard_ok valid
  obtain ⟨_, valid⟩ := guard_ok valid
  obtain ⟨_, valid⟩ := guard_ok valid
  obtain ⟨_, valid⟩ := guard_ok valid
  obtain ⟨_, valid⟩ := guard_ok valid
  by_contra wrong
  dsimp only at valid
  rw [if_pos (show Frame.computeCrc (Frame.readHeader data) (payloadOf data) ≠
    (Frame.readHeader data).crc32c from
    wrong)] at valid
  cases valid

section Damage

variable {data : Bytes} {position : Nat} {value : UInt8}

theorem clearedBytes_set_outside (outside : 32 ≤ position ∧ position < 36 ∨ 40 ≤ position) :
    clearedBytes (data.set position value) = clearedBytes data := by
  rw [clearedBytes, clearedBytes, slice_set_outside value (by omega),
    slice_set_outside value (by omega)]

theorem clearedBytes_set_inside (enough : 40 ≤ data.length)
    (inside : position < 32 ∨ 36 ≤ position ∧ position < 40) :
    clearedBytes (data.set position value) = (clearedBytes data).set position value ∧
      (clearedBytes data)[position]? = data[position]? ∧ position < (clearedBytes data).length := by
  have front : (slice data 0 32).length = 32 := length_slice (by omega)
  have back : (slice data 36 4).length = 4 := length_slice (by omega)
  rcases inside with before | ⟨behind, ends⟩
  · refine ⟨?_, ?_, ?_⟩
    · rw [clearedBytes, clearedBytes, slice_set_inside value (Nat.zero_le _),
        slice_set_outside value (.inl (by omega)), List.set_append_left _ _ (by omega),
        Nat.sub_zero]
    · have found := @getElem?_slice data position 0 32 (Nat.zero_le _) (by omega)
      rwa [Nat.sub_zero, ← List.getElem?_append_left (by omega)] at found
    · simp [clearedBytes, front, back]
      omega
  · refine ⟨?_, ?_, ?_⟩
    · rw [clearedBytes, clearedBytes, slice_set_outside value (.inr (by omega)),
        slice_set_inside value behind, List.set_append_right _ _ (by omega),
        List.set_append_right _ _ (by simp [front]; omega)]
      simp only [front, length_be32]
      rw [show position - 32 - 4 = position - 36 by omega]
    · have found := @getElem?_slice data position 36 4 behind (by omega)
      rw [← found, clearedBytes, List.getElem?_append_right (by omega),
        List.getElem?_append_right (by simp [front]; omega)]
      simp only [front, length_be32]
      rw [show position - 32 - 4 = position - 36 by omega]
    · simp [clearedBytes, front, back]
      omega

theorem not_intact_of_damage (intact : Intact data) (inside : position < consumedBy data)
    (outside : position < 8 ∨ 12 ≤ position) (differs : data[position]? ≠ some value) :
    ¬ Intact (data.set position value) := by
  intro damaged
  have stored := intact_crc intact
  have taken := intact_crc damaged
  obtain ⟨enough, whole, _⟩ := intact
  rw [consumedBy, FrameHeader.size] at whole inside
  rw [FrameHeader.size] at enough
  have sameLength : (Frame.readHeader (data.set position value)).payloadLength =
      (Frame.readHeader data).payloadLength := by
    change be32Of (slice (data.set position value) 8 4) = be32Of (slice data 8 4)
    rw [slice_set_outside value (by omega)]
  rw [sameLength] at taken
  generalize (Frame.readHeader data).payloadLength.toNat = length at stored taken whole inside
  rw [takenCrc, FrameHeader.size] at stored taken
  by_cases payload : 40 ≤ position
  · -- The payload is under the checksum of an unchanged header.
    rw [clearedBytes_set_outside (.inr payload),
      slice_set_outside value (.inr (by omega : 32 + 4 ≤ position)), ← stored,
      slice_set_inside value payload] at taken
    have size : (slice data 40 length).length = length := length_slice whole
    exact Crc32C.computeFrom_set_ne _ (by omega)
      (by rwa [getElem?_slice payload (by omega)]) taken
  · rw [slice_set_outside value (.inl (by omega) : position < 40 ∨ 40 + length ≤ position)] at taken
    by_cases field : 32 ≤ position ∧ position < 36
    · -- The checksum field itself: the checksum taken is the one stored before.
      rw [clearedBytes_set_outside (.inl field), stored] at taken
      have same : slice data 32 4 = slice (data.set position value) 32 4 := by
        rw [← be32_be32Of (length_slice (by omega : 32 + 4 ≤ data.length)), taken, be32_be32Of]
        exact length_slice (by rw [List.length_set]; omega)
      have before := @getElem?_slice data position 32 4 field.1 field.2
      have after := @getElem?_slice (data.set position value) position 32 4 field.1 field.2
      apply differs
      rw [← before, same, after, List.getElem?_set_self (by omega)]
    · -- Any other header byte is under the checksum.
      obtain ⟨set, found, room⟩ := @clearedBytes_set_inside data position value enough (by omega)
      rw [set, slice_set_outside value (by omega : position < 32 ∨ 32 + 4 ≤ position),
        ← stored] at taken
      exact Crc32C.computeFrom_set_ne 0 room (by rwa [found]) (Crc32C.computeFrom_injective _ taken)

end Damage

theorem validate_answers (header : FrameHeader) (payload : Bytes) (available : Nat) :
    Answers (Frame.validate header payload available) := by
  unfold Frame.validate
  refine Answers.guard fun _ => Answers.guard fun _ => Answers.guard fun _ =>
    Answers.guard fun _ => Answers.guard fun _ =>
    Answers.guard fun _ => ?_
  dsimp only
  split
  · exact answers_failWith _ _
  · exact answers_ok _

theorem decodeFrame_damaged {data : Bytes} (damaged : ¬ Intact data)
    (decoder : Decoder) (slot : CanonicalEvent)
    (receiveTsNs : UInt64) :
    ∃ status, (decoder.decodeFrame data slot receiveTsNs).2.2 = .error (.status status) := by
  unfold decodeFrame
  rw [readFrame_eq]
  by_cases whole : FrameHeader.size ≤ data.length ∧ consumedBy data ≤ data.length
  · rw [if_pos whole]
    dsimp only
    rcases validate_answers (Frame.readHeader data) (payloadOf data) data.length with
      ⟨_, valid⟩ | ⟨status, refused⟩
    · exact absurd ⟨whole.1, whole.2, valid⟩ damaged
    · rw [refused]
      exact ⟨status, rfl⟩
  · rw [if_neg whole]
    exact ⟨_, rfl⟩

/-- A written frame with one byte changed outside its payload length is refused. -/
theorem damaged_frame_refused {buffer payload after : Bytes} {type : MessageType}
    {flags : UInt16} {sessionId : UInt32}
    {sequence timestamp : UInt64} (short : payload.length ≤ Limits.maxPayloadLength)
    (written : Frame.writeFrameFrom buffer type flags sessionId sequence
      timestamp payload = .ok after)
    {position : Nat} (inside : position < FrameHeader.size + payload.length)
    (outside : position < 8 ∨ 12 ≤ position)
    {value : UInt8} (differs : after[position]? ≠ some value)
    (decoder : Decoder) (slot : CanonicalEvent)
    (receiveTsNs : UInt64) :
    ∃ status,
      (decoder.decodeFrame
        ((after.take (FrameHeader.size + payload.length)).set position value) slot
      receiveTsNs).2.2 = .error (.status status) := by
  obtain ⟨same, rewritten, frame⟩ :=
    writeFrameFrom_eq type flags sessionId sequence timestamp (writeFrameFrom_room written)
  rw [written, Except.ok.injEq] at rewritten
  subst rewritten
  have header : Frame.readHeader (after.take (FrameHeader.size + payload.length)) =
      sentHeader type flags sessionId sequence timestamp payload := by
    rw [frame]
    exact Frame.readHeader_layout _ _
  have length := @toNat_payloadLength payload short
  have size : (after.take (FrameHeader.size + payload.length)).length =
      FrameHeader.size + payload.length := by
    rw [frame, List.length_append, FrameHeader.length_layout]
  have behind : payloadOf (after.take (FrameHeader.size + payload.length)) = payload := by
    rw [frame]
    exact List.drop_left' (FrameHeader.length_layout _)
  have consumed : consumedBy (after.take (FrameHeader.size + payload.length)) =
      FrameHeader.size + payload.length := by
    rw [consumedBy, header]
    exact congrArg _ length
  have intact : Intact (after.take (FrameHeader.size + payload.length)) := by
    refine ⟨by omega, by omega, ?_⟩
    have valid := @validate_sent type flags sessionId sequence timestamp payload short []
      (FrameHeader.size + payload.length) (by omega)
    rw [List.append_nil] at valid
    rwa [header, behind, size]
  apply decodeFrame_damaged
  apply not_intact_of_damage intact (by omega) outside
  rwa [List.getElem?_take_of_lt inside]

theorem damaged_frame_refused_beat :
    ∃ after, Frame.writeFrameFrom (List.replicate 48 0) .heartbeat 0 1 5 7 (be64 7) = .ok after ∧
      ∃ status, (decodeFrame {} ((after.take 48).set 40 9) emptyEvent 0).2.2 =
        .error (.status status) := by
  obtain ⟨after, written, frame⟩ :=
    @writeFrameFrom_eq (List.replicate 48 0)
      (be64 7) .heartbeat 0 1 5 7 (by simp [FrameHeader.size])
  have size : FrameHeader.size + (be64 7).length = 48 := rfl
  have differs : after[40]? ≠ some 9 := by
    have first := congrArg (·[40]?) frame
    rw [size] at first
    simp only [List.getElem?_take_of_lt (show 40 < 48 by decide)] at first
    rw [first, List.getElem?_append_right (show _ ≤ 40 from (FrameHeader.length_layout _).le),
      FrameHeader.length_layout]
    decide
  exact ⟨after, written, damaged_frame_refused (by decide) written (show 40 < 48 by decide)
    (.inr (by decide)) differs {}
    emptyEvent 0⟩

end Decoder

end VectorTick.Vtp1
