import VectorTick.Codec.BitPack

/-! Bit packing of the differences between consecutive values.

Deltas are or-ed into the buffer through a window of 32 bits, and the buffer is not cleared. A
buffer is modelled by all its bytes; its size is their number.
-/

set_option autoImplicit false

namespace VectorTick.Codec.DeltaBitPackU32

open Foundation

def maxEncodedSize (numValues bits : Nat) : Nat :=
  4 + BitPackU32.maxEncodedSize (if numValues > 0 then numValues - 1 else 0) bits

def readWindow (bytes : Bytes) (byteOffset : Nat) : UInt32 :=
  (List.range 4).foldl (fun window j =>
    window ||| ((bytes.getD (byteOffset + j) 0).toUInt32 <<< UInt32.ofNat (j * 8))) 0

def writeWindow (bytes : Bytes) (byteOffset : Nat) (window : UInt32) : Bytes :=
  (List.range 4).foldl (fun bytes j => bytes.set (byteOffset + j)
    (window >>> UInt32.ofNat (j * 8)).toUInt8) bytes

/-- A delta whose window does not lie in the output is left out. -/
def packDelta (bits : Nat) (deltaOut : Bytes) (bitOffset : Nat) (delta : UInt32) : Bytes :=
  if bitOffset / 8 + 4 ≤ deltaOut.length then
    writeWindow deltaOut (bitOffset / 8) (readWindow deltaOut (bitOffset / 8) |||
      ((delta &&& BitPackU32.mask bits) <<< UInt32.ofNat (bitOffset % 8)))
  else deltaOut

def encodeLoop (bits : Nat) : UInt32 → List UInt32 → Nat → Bytes → Bytes
  | _, [], _, deltaOut => deltaOut
  | prev, value :: rest, bitOffset, deltaOut =>
    encodeLoop bits value rest ((bitOffset + bits) % 2 ^ 64)
      (packDelta bits deltaOut bitOffset (value - prev))

/-- The returned size and the buffer as it is left. -/
def encode (values : List UInt32) (bits : Nat) (output : Bytes) : Nat × Bytes :=
  match values with
  | [] => (0, output)
  | first :: rest =>
    if output.length < 4 then (0, output)
    else
      let output := u32 first ++ output.drop 4
      if rest.length = 0 then (4, output)
      else
        let deltaSize := BitPackU32.maxEncodedSize rest.length bits
        if output.length < 4 + deltaSize then (0, output)
        else (4 + deltaSize, output.take 4 ++ encodeLoop bits first rest 0 (output.drop 4))

/-- A delta whose window does not lie in the input is zero. -/
def readDelta (bits : Nat) (deltaIn : Bytes) (bitOffset : Nat) : UInt32 :=
  if bitOffset / 8 + 4 ≤ deltaIn.length then
    (readWindow deltaIn (bitOffset / 8) >>> UInt32.ofNat (bitOffset % 8)) &&& BitPackU32.mask bits
  else 0

def decodeLoop (bits : Nat) (deltaIn : Bytes) : Nat → UInt32 → Nat → List UInt32
  | 0, _, _ => []
  | left + 1, prev, bitOffset =>
    let value := prev + readDelta bits deltaIn bitOffset
    value :: decodeLoop bits deltaIn left value ((bitOffset + bits) % 2 ^ 64)

/-- The returned size and the values stored. -/
def decode (input : Bytes) (bits numValues : Nat) : Nat × List UInt32 :=
  if numValues = 0 then (0, [])
  else if input.length < 4 then (0, [])
  else
    let first := u32Of (input.take 4)
    if numValues = 1 then (4, [first])
    else
      let deltaSize := BitPackU32.maxEncodedSize (numValues - 1) bits
      if input.length < 4 + deltaSize then (0, [first])
      else (4 + deltaSize, first :: decodeLoop bits (input.drop 4) (numValues - 1) first 0)

theorem testBit_or_byte (window : UInt32) (byte : UInt8) {j : Nat} (inWindow : j < 4) (m : Nat) :
    (window ||| (byte.toUInt32 <<< UInt32.ofNat (j * 8))).toNat.testBit m =
      (window.toNat.testBit m || (decide (8 * j ≤ m) && byte.toNat.testBit (m - 8 * j))) := by
  rw [UInt32.toNat_or, toNat_placed_byte byte inWindow, Nat.testBit_or, Nat.testBit_mul_two_pow]

theorem testBit_readBytes (bytes : Bytes) (byteOffset count : Nat) (short : count ≤ 4) (m : Nat) :
    ((List.range count).foldl (fun window j =>
      window ||| ((bytes.getD (byteOffset + j) 0).toUInt32 <<< UInt32.ofNat (j * 8)))
        0).toNat.testBit m =
      (decide (m < 8 * count) && bitAt bytes (8 * byteOffset + m)) := by
  induction count with
  | zero => simp
  | succ count ih =>
    rw [List.range_succ, List.foldl_append, List.foldl_cons, List.foldl_nil,
      testBit_or_byte _ _ (by omega), ih (by omega)]
    by_cases earlier : m < 8 * count
    · rw [decide_eq_true earlier, decide_eq_false (by omega : ¬ 8 * count ≤ m),
        decide_eq_true (by omega : m < 8 * (count + 1)), Bool.false_and, Bool.or_false]
    · rw [decide_eq_false earlier, decide_eq_true (by omega : 8 * count ≤ m), Bool.false_and,
        Bool.false_or, Bool.true_and]
      by_cases here : m < 8 * (count + 1)
      · have index : m / 8 = count := by omega
        have bit : m - 8 * count = m % 8 := by omega
        rw [decide_eq_true here, Bool.true_and, BitPackU32.bitAt_shift, index, bit]
      · rw [decide_eq_false here, Bool.false_and]
        exact testBit_of_lt 8 (UInt8.toNat_lt _) (by omega)

theorem testBit_readWindow (bytes : Bytes) (byteOffset m : Nat) :
    (readWindow bytes byteOffset).toNat.testBit m =
      (decide (m < 32) && bitAt bytes (8 * byteOffset + m)) :=
  testBit_readBytes bytes byteOffset 4 (Nat.le_refl 4) m

theorem length_writeBytes (bytes : Bytes) (byteOffset : Nat) (window : UInt32) (count : Nat) :
    ((List.range count).foldl (fun bytes j =>
      bytes.set (byteOffset + j)
      (window >>> UInt32.ofNat (j * 8)).toUInt8) bytes).length = bytes.length :=
  length_foldl _ _ _ fun _ _ => List.length_set

theorem bitAt_writeBytes (bytes : Bytes) (byteOffset : Nat) (window : UInt32)
    (count : Nat) (short : count ≤ 4)
    {k : Nat} (inside : k / 8 < bytes.length) :
    bitAt ((List.range count).foldl (fun bytes j =>
      bytes.set (byteOffset + j) (window >>> UInt32.ofNat (j * 8)).toUInt8) bytes) k =
      if 8 * byteOffset ≤ k ∧ k < 8 * (byteOffset + count) then
        window.toNat.testBit (k - 8 * byteOffset)
      else bitAt bytes k := by
  induction count with
  | zero =>
    rw [if_neg (by omega)]
    rfl
  | succ count ih =>
    rw [List.range_succ, List.foldl_append, List.foldl_cons, List.foldl_nil,
      bitAt_set _ _ _ (by rwa [length_writeBytes]), ih (by omega)]
    by_cases here : k / 8 = byteOffset + count
    · have amount : (UInt32.ofNat (count * 8)).toNat % 32 = 8 * count := by
        rw [UInt32.toNat_ofNat']
        omega
      have index : 8 * count + k % 8 = k - 8 * byteOffset := by omega
      rw [if_pos here, if_pos (by omega), UInt32.toNat_toUInt8, UInt32.toNat_shiftRight, amount,
        Nat.shiftRight_eq_div_pow, testBit_byte _ _ (Nat.mod_lt _ (by decide)), index]
    · have same : (8 * byteOffset ≤ k ∧ k < 8 * (byteOffset + count)) ↔
          (8 * byteOffset ≤ k ∧ k < 8 * (byteOffset + (count + 1))) := by omega
      simp only [if_neg here, same]

@[simp] theorem length_writeWindow (bytes : Bytes) (byteOffset : Nat) (window : UInt32) :
    (writeWindow bytes byteOffset window).length = bytes.length :=
  length_writeBytes bytes byteOffset window 4

theorem bitAt_writeWindow (bytes : Bytes) (byteOffset : Nat) (window : UInt32) {k : Nat}
    (inside : k / 8 < bytes.length) :
    bitAt (writeWindow bytes byteOffset window) k =
      if 8 * byteOffset ≤ k ∧ k < 8 * (byteOffset + 4) then
        window.toNat.testBit (k - 8 * byteOffset)
      else bitAt bytes k :=
  bitAt_writeBytes bytes byteOffset window 4 (Nat.le_refl 4) inside

/-- A delta stored at a bit offset sets a bit: its window lies in a buffer of
`size` bytes and shows the bit. -/
def Sets (size bitOffset : Nat) (delta : UInt32) (k : Nat) : Prop :=
  bitOffset / 8 + 4 ≤ size ∧ bitOffset ≤ k ∧ k < 8 * (bitOffset / 8 + 4) ∧
    delta.toNat.testBit (k - bitOffset) = true

@[simp] theorem length_packDelta (bits : Nat) (deltaOut : Bytes)
    (bitOffset : Nat) (delta : UInt32) :
    (packDelta bits deltaOut bitOffset delta).length = deltaOut.length := by
  rw [packDelta]
  split <;> simp

theorem bitAt_packDelta {bits : Nat} (narrow : bits ≤ 32) (deltaOut : Bytes)
    (bitOffset : Nat) {delta : UInt32}
    (small : delta.toNat < 2 ^ bits) {k : Nat} (inside : k / 8 < deltaOut.length) :
    bitAt (packDelta bits deltaOut bitOffset delta) k = true ↔
      bitAt deltaOut k = true ∨ Sets deltaOut.length bitOffset delta k := by
  have masked : delta &&& BitPackU32.mask bits = delta := by
    apply UInt32.toNat_inj.mp
    rw [BitPackU32.toNat_and_mask _ narrow, Nat.mod_eq_of_lt small]
  have amount : (UInt32.ofNat (bitOffset % 8)).toNat % 32 = bitOffset % 8 := by
    rw [UInt32.toNat_ofNat']
    omega
  rw [packDelta]
  split
  · next room =>
    rw [bitAt_writeWindow _ _ _ inside]
    split
    · next covered =>
      have window : 8 * (bitOffset / 8) + (k - 8 * (bitOffset / 8)) = k := by omega
      have place : k - 8 * (bitOffset / 8) - bitOffset % 8 = k - bitOffset := by omega
      have behind : bitOffset % 8 ≤ k - 8 * (bitOffset / 8) ↔ bitOffset ≤ k := by omega
      rw [masked, UInt32.toNat_or, Nat.testBit_or, testBit_readWindow, window,
        UInt32.toNat_shiftLeft, amount, Nat.testBit_mod_two_pow, Nat.shiftLeft_eq,
        Nat.testBit_mul_two_pow, place, decide_eq_true (by omega : k - 8 * (bitOffset / 8) < 32)]
      simp only [Bool.true_and, Bool.or_eq_true, Bool.and_eq_true, decide_eq_true_eq, behind, Sets,
        room, covered, true_and]
    · next outside =>
      refine ⟨Or.inl, fun either => either.resolve_right fun sets => outside ?_⟩
      obtain ⟨-, above, below, -⟩ := sets
      omega
  · next full => exact ⟨Or.inl, fun either => either.resolve_right fun sets => full sets.1⟩

theorem testBit_readDelta {bits : Nat} (narrow : bits ≤ 32) (deltaIn : Bytes) (bitOffset j : Nat) :
    (readDelta bits deltaIn bitOffset).toNat.testBit j = true ↔
      bitOffset / 8 + 4 ≤ deltaIn.length ∧ j < bits ∧ bitOffset % 8 + j < 32 ∧
        bitAt deltaIn (bitOffset + j) = true := by
  have amount : (UInt32.ofNat (bitOffset % 8)).toNat % 32 = bitOffset % 8 := by
    rw [UInt32.toNat_ofNat']
    omega
  have place : 8 * (bitOffset / 8) + (j + bitOffset % 8) = bitOffset + j := by omega
  rw [readDelta]
  split
  · next room =>
    rw [BitPackU32.toNat_and_mask _ narrow, Nat.testBit_mod_two_pow, UInt32.toNat_shiftRight,
      amount, Nat.shiftRight_eq_div_pow, Nat.testBit_div_two_pow, testBit_readWindow, place,
      Nat.add_comm j]
    simp only [Bool.and_eq_true, decide_eq_true_eq, room, true_and]
  · next short => simp [short]

/-- The differences between neighbours, the first to the value before the list. -/
def deltas : UInt32 → List UInt32 → List UInt32
  | _, [] => []
  | prev, value :: rest => (value - prev) :: deltas value rest

@[simp] theorem length_deltas (prev : UInt32) (values : List UInt32) :
    (deltas prev values).length = values.length := by
  induction values generalizing prev with
  | nil => rfl
  | cons value rest ih => rw [deltas, List.length_cons, ih, List.length_cons]

@[simp] theorem length_encodeLoop (bits : Nat) (prev : UInt32)
    (values : List UInt32) (bitOffset : Nat)
    (deltaOut : Bytes) :
    (encodeLoop bits prev values bitOffset deltaOut).length = deltaOut.length := by
  induction values generalizing prev bitOffset deltaOut with
  | nil => rfl
  | cons value rest ih => rw [encodeLoop, ih, length_packDelta]

theorem next_offset (bitOffset bits i : Nat) :
    ((bitOffset + bits) % 2 ^ 64 + i * bits) % 2 ^ 64 = (bitOffset + (i + 1) * bits) % 2 ^ 64 := by
  rw [Nat.mod_add_mod]
  ring_nf

theorem bitAt_encodeLoop {bits : Nat} (narrow : bits ≤ 32) (prev : UInt32) (values : List UInt32)
    (small : ∀ delta ∈ deltas prev values, delta.toNat < 2 ^ bits) {bitOffset : Nat}
    (word : bitOffset < 2 ^ 64)
    (deltaOut : Bytes) {k : Nat} (inside : k / 8 < deltaOut.length) :
    bitAt (encodeLoop bits prev values bitOffset deltaOut) k = true ↔
      bitAt deltaOut k = true ∨ ∃ i delta, (deltas prev values)[i]? = some delta ∧
        Sets deltaOut.length ((bitOffset + i * bits) % 2 ^ 64) delta k := by
  induction values generalizing prev bitOffset deltaOut with
  | nil => simp [encodeLoop, deltas]
  | cons value rest ih =>
    have head := small (value - prev) (by simp [deltas])
    have tail : ∀ delta ∈ deltas value rest, delta.toNat < 2 ^ bits :=
      fun delta member => small delta (by simp [deltas, member])
    rw [encodeLoop, ih value tail (Nat.mod_lt _ (by decide)) _ (by rwa [length_packDelta]),
      bitAt_packDelta narrow _ _ head inside, length_packDelta, or_assoc]
    refine or_congr_right ⟨fun either => ?_, fun found => ?_⟩
    · rcases either with first | ⟨i, delta, selected, sets⟩
      · exact ⟨0, value - prev, rfl, by rwa [Nat.zero_mul, Nat.add_zero, Nat.mod_eq_of_lt word]⟩
      · exact ⟨i + 1, delta, selected, by rwa [next_offset] at sets⟩
    · obtain ⟨i, delta, selected, sets⟩ := found
      cases i with
      | zero =>
        have same : value - prev = delta := by simpa [deltas] using selected
        rw [Nat.zero_mul, Nat.add_zero, Nat.mod_eq_of_lt word, ← same] at sets
        exact .inl sets
      | succ i => exact .inr ⟨i, delta, by simpa [deltas] using selected, by rwa [next_offset]⟩

theorem decodeLoop_eq_iff (bits : Nat) (deltaIn : Bytes) (prev : UInt32)
    (values : List UInt32) {bitOffset : Nat}
    (word : bitOffset < 2 ^ 64) :
    decodeLoop bits deltaIn values.length prev bitOffset = values ↔
      ∀ i delta, (deltas prev values)[i]? = some delta →
        readDelta bits deltaIn ((bitOffset + i * bits) % 2 ^ 64) = delta := by
  induction values generalizing prev bitOffset with
  | nil => simp [decodeLoop, deltas]
  | cons value rest ih =>
    have head : prev + readDelta bits deltaIn bitOffset = value ↔
        readDelta bits deltaIn bitOffset = value - prev := by
      constructor
      · intro sum
        rw [← sum, UInt32.add_comm, UInt32.add_sub_cancel]
      · intro difference
        rw [difference, UInt32.add_comm, UInt32.sub_add_cancel]
    rw [List.length_cons, decodeLoop, List.cons.injEq, head]
    constructor
    · rintro ⟨first, others⟩ i delta selected
      cases i with
      | zero =>
        rw [Nat.zero_mul, Nat.add_zero, Nat.mod_eq_of_lt word, first]
        simpa [deltas] using selected
      | succ i =>
        rw [head.mpr first] at others
        rw [← next_offset]
        exact (ih value (Nat.mod_lt _ (by decide))).mp others i delta
          (by simpa [deltas] using selected)
    · intro every
      have first := every 0 (value - prev) rfl
      rw [Nat.zero_mul, Nat.add_zero, Nat.mod_eq_of_lt word] at first
      refine ⟨first, ?_⟩
      rw [head.mpr first, ih value (Nat.mod_lt _ (by decide))]
      intro i delta selected
      rw [next_offset]
      exact every (i + 1) delta (by simpa [deltas] using selected)

theorem encode_fits {bits : Nat} (first : UInt32) (rest : List UInt32) {output : Bytes}
    (room : maxEncodedSize (rest.length + 1) bits ≤ output.length) :
    encode (first :: rest) bits output =
      (4 + BitPackU32.maxEncodedSize rest.length bits,
        u32 first ++ encodeLoop bits first rest 0 (output.drop 4)) := by
  rw [maxEncodedSize, if_pos (Nat.succ_pos _), Nat.add_sub_cancel] at room
  have length : (u32 first ++ output.drop 4).length = output.length := by
    rw [List.length_append, length_u32, List.length_drop]
    omega
  simp only [encode, if_neg (by omega : ¬ output.length < 4), length,
    if_neg (by omega : ¬ output.length < 4 + BitPackU32.maxEncodedSize rest.length bits),
    List.take_left' (length_u32 first), List.drop_left' (length_u32 first)]
  split
  · next single =>
    rw [List.eq_nil_of_length_eq_zero single]
    simp [encodeLoop, BitPackU32.maxEncodedSize]
  · rfl

theorem decode_stored {bits : Nat} (first : UInt32) (count : Nat) {deltaIn : Bytes}
    (size : deltaIn.length = BitPackU32.maxEncodedSize count bits) :
    decode (u32 first ++ deltaIn) bits (count + 1) =
      (4 + BitPackU32.maxEncodedSize count bits,
        first :: decodeLoop bits deltaIn count first 0) := by
  have length : (u32 first ++ deltaIn).length = 4 + BitPackU32.maxEncodedSize count bits := by
    rw [List.length_append, length_u32, size]
  simp only [decode, length, if_neg (by omega : ¬ count + 1 = 0), Nat.add_sub_cancel, Nat.lt_irrefl,
    if_false, if_neg (by omega : ¬ 4 + BitPackU32.maxEncodedSize count bits < 4),
    List.take_left' (length_u32 first), List.drop_left' (length_u32 first), u32Of_u32]
  split
  · next single =>
    have none : count = 0 := by omega
    rw [none]
    simp [decodeLoop, BitPackU32.maxEncodedSize]
  · rfl

/-- The delta at an index comes back: where its window lies in the encoding, it fits
behind its bit phase, and neither the old contents nor another delta set a bit that it
lacks; elsewhere it is zero. -/
def Survives (bits : Nat) (deltas : List UInt32) (old : Bytes) (i : Nat) (delta : UInt32) : Prop :=
  let offset := i * bits % 2 ^ 64
  if offset / 8 + 4 ≤ BitPackU32.maxEncodedSize deltas.length bits then
    delta.toNat < 2 ^ (32 - offset % 8) ∧ ∀ j < bits, offset % 8 + j < 32 →
      (bitAt old (offset + j) = true ∨ ∃ k other, k ≠ i ∧ deltas[k]? = some other ∧
        Sets old.length (k * bits % 2 ^ 64) other (offset + j)) → delta.toNat.testBit j = true
  else delta = 0

theorem readDelta_eq_iff {bits : Nat} (narrow : bits ≤ 32) (first : UInt32) (rest : List UInt32)
    (small : ∀ delta ∈ deltas first rest, delta.toNat < 2 ^ bits) {old : Bytes}
    (room : BitPackU32.maxEncodedSize rest.length bits ≤ old.length) {i : Nat} {delta : UInt32}
    (selected : (deltas first rest)[i]? = some delta) :
    readDelta bits
      ((encodeLoop bits first rest 0 old).take (BitPackU32.maxEncodedSize rest.length bits))
        (i * bits % 2 ^ 64) = delta ↔ Survives bits (deltas first rest) old i delta := by
  have fits := small delta (List.mem_of_getElem? selected)
  have size : ((encodeLoop bits first rest 0 old).take
      (BitPackU32.maxEncodedSize rest.length bits)).length =
      BitPackU32.maxEncodedSize rest.length bits := by
    rw [List.length_take, length_encodeLoop, Nat.min_eq_left room]
  have bit (j : Nat) := testBit_readDelta narrow
    ((encodeLoop bits first rest 0 old).take (BitPackU32.maxEncodedSize rest.length bits))
      (i * bits % 2 ^ 64) j
  have written (k : Nat) (inside : k / 8 < old.length) := bitAt_encodeLoop narrow first rest small
    (by decide : 0 < 2 ^ 64) old inside
  simp only [Nat.zero_add] at written
  rw [Survives, length_deltas]
  rw [size] at bit
  generalize place : i * bits % 2 ^ 64 = offset at bit ⊢
  split
  · next inside =>
    simp only [inside, true_and] at bit
    have shown (j : Nat) (inWindow : offset % 8 + j < 32) :
        bitAt ((encodeLoop bits first rest 0 old).take (BitPackU32.maxEncodedSize rest.length bits))
          (offset + j) =
          bitAt (encodeLoop bits first rest 0 old) (offset + j) := bitAt_take _ (by omega)
    constructor
    · intro back
      have agrees (j : Nat) := bit j
      simp only [back] at agrees
      refine ⟨Nat.lt_pow_two_of_testBit _ fun j above => ?_, fun j inValue inWindow source => ?_⟩
      · by_contra set
        have inWindow := ((agrees j).mp (by simpa using set)).2.1
        omega
      · refine (agrees j).mpr ⟨inValue, inWindow, ?_⟩
        rw [shown j inWindow, written _ (by omega)]
        rcases source with earlier | ⟨k, other, -, found, sets⟩
        · exact .inl earlier
        · exact .inr ⟨k, other, found, sets⟩
    · rintro ⟨narrowed, clear⟩
      apply UInt32.toNat_inj.mp
      apply Nat.eq_of_testBit_eq
      intro j
      rw [Bool.eq_iff_iff, bit j]
      constructor
      · rintro ⟨inValue, inWindow, set⟩
        rw [shown j inWindow, written _ (by omega)] at set
        rcases set with earlier | ⟨k, other, found, sets⟩
        · exact clear j inValue inWindow (.inl earlier)
        · by_cases own : k = i
          · rw [own, selected] at found
            cases found
            have set := sets.2.2.2
            rwa [own, place, Nat.add_sub_cancel_left] at set
          · exact clear j inValue inWindow (.inr ⟨k, other, own, found, sets⟩)
      · intro set
        have inValue : j < bits := by
          by_contra above
          rw [testBit_of_lt _ fits (Nat.not_lt.mp above)] at set
          cases set
        have inWindow : offset % 8 + j < 32 := by
          by_contra above
          rw [testBit_of_lt _ narrowed (by omega)] at set
          cases set
        refine ⟨inValue, inWindow, ?_⟩
        rw [shown j inWindow, written _ (by omega)]
        refine .inr ⟨i, delta, selected, ?_⟩
        rw [place]
        exact ⟨by omega, by omega, by omega, by rwa [Nat.add_sub_cancel_left]⟩
  · next outside =>
    rw [readDelta, if_neg (by rwa [size]), eq_comm]

theorem not_sets_other {bits i k j size : Nat} {other : UInt32}
    (small : other.toNat < 2 ^ bits) (inValue : j < bits)
    (inI : (i + 1) * bits ≤ 2 ^ 64) (inK : (k + 1) * bits ≤ 2 ^ 64) (apart : k ≠ i) :
    ¬ Sets size (k * bits % 2 ^ 64) other (i * bits % 2 ^ 64 + j) := by
  rw [Nat.succ_mul] at inI inK
  rw [Nat.mod_eq_of_lt (by omega : i * bits < 2 ^ 64),
    Nat.mod_eq_of_lt (by omega : k * bits < 2 ^ 64)]
  rintro ⟨-, above, -, set⟩
  have below : i * bits + j - k * bits < bits := by
    by_contra beyond
    rw [testBit_of_lt _ small (Nat.not_lt.mp beyond)] at set
    cases set
  rcases Nat.lt_or_gt_of_ne apart with before | behind
  · have next := Nat.mul_le_mul_right bits (by omega : k + 1 ≤ i)
    rw [Nat.succ_mul] at next
    omega
  · have next := Nat.mul_le_mul_right bits (by omega : i + 1 ≤ k)
    rw [Nat.succ_mul] at next
    omega

theorem survives_iff {bits : Nat} {deltas : List UInt32}
    (small : ∀ delta ∈ deltas, delta.toNat < 2 ^ bits)
    (word : deltas.length * bits ≤ 2 ^ 64) (wide : 1 ≤ bits) (old : Bytes)
    {i : Nat} {delta : UInt32}
    (selected : deltas[i]? = some delta) :
    Survives bits deltas old i delta ↔
      if i * bits / 8 + 4 ≤ BitPackU32.maxEncodedSize deltas.length bits then
        delta.toNat < 2 ^ (32 - i * bits % 8) ∧ ∀ j < bits, i * bits % 8 + j < 32 →
          bitAt old (i * bits + j) = true → delta.toNat.testBit j = true
      else delta = 0 := by
  have inside {k : Nat} {other : UInt32}
      (found : deltas[k]? = some other) : (k + 1) * bits ≤ 2 ^ 64 := by
    obtain ⟨index, -⟩ := List.getElem?_eq_some_iff.mp found
    have product := Nat.mul_le_mul_right bits (by omega : k + 1 ≤ deltas.length)
    omega
  have apart (j : Nat) (inValue : j < bits) : ¬ ∃ k other, k ≠ i ∧ deltas[k]? = some other ∧
      Sets old.length (k * bits % 2 ^ 64) other (i * bits % 2 ^ 64 + j) := by
    rintro ⟨k, other, different, found, sets⟩
    exact not_sets_other (small other (List.mem_of_getElem? found)) inValue (inside selected)
      (inside found) different sets
  have offset : i * bits % 2 ^ 64 = i * bits := by
    have whole := inside selected
    rw [Nat.succ_mul] at whole
    exact Nat.mod_eq_of_lt (by omega)
  rw [Survives]
  rw [offset] at apart ⊢
  split
  · refine and_congr_right fun _ => forall_congr' fun j => ?_
    constructor
    · exact fun clear inValue inWindow set => clear inValue inWindow (.inl set)
    · exact fun clear inValue inWindow source =>
        clear inValue inWindow (source.resolve_right (apart j inValue))
  · rfl

def RoundTrips (values : List UInt32) (bits : Nat) (output : Bytes) : Prop :=
  let stored := encode values bits output
  stored.1 ≠ 0 ∧ decode (stored.2.take stored.1) bits values.length = (stored.1, values)

instance (values : List UInt32) (bits : Nat) (output : Bytes) :
    Decidable (RoundTrips values bits output) :=
  inferInstanceAs (Decidable (_ ∧ _))

/-- Delta bit packing is a round trip exactly where every delta survives. -/
theorem roundTrips_iff_survives (bits : Nat) (narrow : bits ≤ 32)
    (first : UInt32) (rest : List UInt32)
    (small : ∀ delta ∈ deltas first rest, delta.toNat < 2 ^ bits) (output : Bytes)
    (room : maxEncodedSize (rest.length + 1) bits ≤ output.length) :
    RoundTrips (first :: rest) bits output ↔
      ∀ i delta, (deltas first rest)[i]? = some delta → Survives bits (deltas first rest)
      (output.drop 4) i delta := by
  have old : BitPackU32.maxEncodedSize rest.length bits ≤ (output.drop 4).length := by
    rw [maxEncodedSize, if_pos (Nat.succ_pos _), Nat.add_sub_cancel] at room
    rw [List.length_drop]
    omega
  have produced : (u32 first ++ encodeLoop bits first rest 0 (output.drop 4)).take
      (4 + BitPackU32.maxEncodedSize rest.length bits) =
      u32 first ++ (encodeLoop bits first rest 0 (output.drop 4)).take
        (BitPackU32.maxEncodedSize rest.length bits) := by
    rw [← length_u32 first, List.take_length_add_append]
  have size : ((encodeLoop bits first rest 0 (output.drop 4)).take
      (BitPackU32.maxEncodedSize rest.length bits)).length =
        BitPackU32.maxEncodedSize rest.length bits := by
    rw [List.length_take, length_encodeLoop, Nat.min_eq_left old]
  have stores : 4 + BitPackU32.maxEncodedSize rest.length bits ≠ 0 := by omega
  rw [RoundTrips, encode_fits first rest room]
  dsimp only
  rw [produced, List.length_cons, decode_stored first rest.length size]
  simp only [stores, ne_eq, not_false_eq_true, true_and, Prod.mk.injEq, List.cons.injEq]
  rw [decodeLoop_eq_iff bits _ first rest (by decide)]
  refine forall_congr' fun i => forall_congr' fun delta => imp_congr_right fun selected => ?_
  rw [Nat.zero_add]
  exact readDelta_eq_iff narrow first rest small old selected

theorem roundTrips_iff_constant : RoundTrips [1, 4, 4, 4, 4] 8 (List.replicate 8 0) ↔
    ∀ i delta, (deltas 1 [4, 4, 4, 4])[i]? = some delta →
      Survives 8 (deltas 1 [4, 4, 4, 4]) ((List.replicate 8 0).drop 4) i delta :=
  roundTrips_iff_survives 8 (by decide) 1 [4, 4, 4, 4] (by simp [deltas])
    (List.replicate 8 0) (by decide)

/-- A single delta of one bit is never stored: its window of four bytes does not fit into the one
byte it takes. -/
theorem not_roundTrips_zero_one : ¬ ∀ bits, 1 ≤ bits → bits ≤ 32 → ∀ first rest,
    (∀ delta ∈ deltas first rest, delta.toNat < 2 ^ bits) → ∀ output : Bytes,
      maxEncodedSize (rest.length + 1) bits ≤ output.length →
        RoundTrips (first :: rest) bits output := by
  intro claimed
  have kept :=
    claimed 1 (by decide) (by decide) 0 [1] (by simp [deltas]) (List.replicate 5 0) (by decide)
  revert kept
  decide

end VectorTick.Codec.DeltaBitPackU32
