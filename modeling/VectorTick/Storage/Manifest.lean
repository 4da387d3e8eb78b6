import VectorTick.Foundation.Memory
import VectorTick.Common.Crc32C
import VectorTick.Common.Status
import VectorTick.Storage.FileFormat

/-! The manifest: the list of known segments, its updates and its file format. -/

set_option autoImplicit false

namespace VectorTick

open Foundation Vts1

structure SegmentMeta where
  segmentId : UInt64 := 0
  filename : Bytes := []
  minSeq : UInt64 := 0
  maxSeq : UInt64 := 0
  minExchangeTs : UInt64 := 0
  maxExchangeTs : UInt64 := 0
  rowCount : UInt64 := 0
  fileSizeBytes : UInt64 := 0
  schemaHash : UInt32 := 0
  dataCrc : UInt32 := 0
  isCompacted : Bool := false
  active : Bool := true
  deriving DecidableEq, Repr

/-- `flag ? 1 : 0`. -/
def flagByte (flag : Bool) : Bytes := [if flag then 1 else 0]

namespace SegmentMeta

def tailBytes (entry : SegmentMeta) : Bytes :=
  u64 entry.minSeq ++ (u64 entry.maxSeq ++ (u64 entry.minExchangeTs ++ (u64 entry.maxExchangeTs ++
    (u64 entry.rowCount ++
      (u64 entry.fileSizeBytes ++ (u32 entry.schemaHash ++ (u32 entry.dataCrc ++
      (flagByte entry.isCompacted ++ flagByte entry.active))))))))

/-- The record shared by the manifest and the journal; the length of the name keeps 32 bits. -/
def toBytes (entry : SegmentMeta) : Bytes :=
  u64 entry.segmentId ++
    (u32 (UInt32.ofNat entry.filename.length) ++ (entry.filename ++ entry.tailBytes))

/-- The fields behind the filename, of a segment whose id and name are known. -/
def readTail (segmentId : UInt64) (filename : Bytes) : Cursor Stop SegmentMeta := do
  let minSeq ← Cursor.u64 .fault
  let maxSeq ← Cursor.u64 .fault
  let minExchangeTs ← Cursor.u64 .fault
  let maxExchangeTs ← Cursor.u64 .fault
  let rowCount ← Cursor.u64 .fault
  let fileSizeBytes ← Cursor.u64 .fault
  let schemaHash ← Cursor.u32 .fault
  let dataCrc ← Cursor.u32 .fault
  let isCompacted ← Cursor.byte .fault
  let active ← Cursor.byte .fault
  return {
    segmentId, filename, minSeq, maxSeq, minExchangeTs, maxExchangeTs, rowCount,
      fileSizeBytes, schemaHash, dataCrc
    isCompacted := isCompacted ≠ 0, active := active ≠ 0 }

theorem readTail_drop (segmentId : UInt64) (filename : Bytes) {memory : Bytes} {offset : Nat}
    (inside : offset + 58 ≤ memory.length) :
    ∃ entry, readTail segmentId filename (memory.drop offset) =
      .ok (entry, memory.drop (offset + 58)) := by
  unfold readTail
  rw [Cursor.bind_ok (Cursor.u64_drop _ (by omega)), Cursor.bind_ok (Cursor.u64_drop _ (by omega)),
    Cursor.bind_ok (Cursor.u64_drop _ (by omega)), Cursor.bind_ok (Cursor.u64_drop _ (by omega)),
    Cursor.bind_ok (Cursor.u64_drop _ (by omega)), Cursor.bind_ok (Cursor.u64_drop _ (by omega)),
    Cursor.bind_ok (Cursor.u32_drop _ (by omega)), Cursor.bind_ok (Cursor.u32_drop _ (by omega)),
    Cursor.bind_ok (Cursor.byte_drop _ (by omega)), Cursor.bind_ok (Cursor.byte_drop _ (by omega))]
  exact ⟨_, rfl⟩

theorem length_tailBytes (entry : SegmentMeta) : entry.tailBytes.length = 58 := by
  simp [tailBytes, flagByte]

theorem flagByte_read (flag : Bool) : decide ((if flag then (1 : UInt8) else 0) ≠ 0) = flag := by
  cases flag <;> decide

theorem readTail_tailBytes (entry : SegmentMeta) (rest : Bytes) :
    readTail entry.segmentId entry.filename (entry.tailBytes ++ rest) = .ok (entry, rest) := by
  simp only [tailBytes, List.append_assoc, readTail]
  rw [Cursor.bind_ok (Cursor.u64_append ..), Cursor.bind_ok (Cursor.u64_append ..),
    Cursor.bind_ok (Cursor.u64_append ..), Cursor.bind_ok (Cursor.u64_append ..),
    Cursor.bind_ok (Cursor.u64_append ..), Cursor.bind_ok (Cursor.u64_append ..),
    Cursor.bind_ok (Cursor.u32_append ..), Cursor.bind_ok (Cursor.u32_append ..), flagByte,
    flagByte, List.singleton_append, List.singleton_append, Cursor.bind_ok (Cursor.byte_cons ..),
    Cursor.bind_ok (Cursor.byte_cons ..), flagByte_read, flagByte_read]
  rfl

end SegmentMeta

structure Manifest where
  version : UInt32 := 1
  nextSegmentId : UInt64 := 1
  nextTxId : UInt64 := 1
  segments : List SegmentMeta := []
  deriving DecidableEq, Repr

namespace Manifest

def magic : UInt32 := 0x314D5456

def putSegment (entry : SegmentMeta) : List SegmentMeta → List SegmentMeta
  | [] => [entry]
  | seg :: rest =>
    if seg.segmentId = entry.segmentId then entry :: rest else seg :: putSegment entry rest

def addSegment (manifest : Manifest) (entry : SegmentMeta) : Manifest :=
  { manifest with segments := putSegment entry manifest.segments }

/-- Clear the active flag of the first entry of an id. -/
def dropSegment (segmentId : UInt64) : List SegmentMeta → List SegmentMeta
  | [] => []
  | seg :: rest =>
    if seg.segmentId = segmentId then { seg with active := false } :: rest
      else seg :: dropSegment segmentId rest

def removeSegment (manifest : Manifest) (segmentId : UInt64) : Manifest :=
  { manifest with segments := dropSegment segmentId manifest.segments }

def findSegment (manifest : Manifest) (segmentId : UInt64) : Option SegmentMeta :=
  manifest.segments.find? fun seg => seg.segmentId = segmentId && seg.active

def activeSegments (manifest : Manifest) : List SegmentMeta := manifest.segments.filter (·.active)

def headBytes (manifest : Manifest) : Bytes :=
  u32 magic ++ (u32 manifest.version ++ (u64 manifest.nextSegmentId ++ (u64 manifest.nextTxId ++
    u64 (UInt64.ofNat manifest.segments.length))))

def payload (manifest : Manifest) : Bytes :=
  manifest.headBytes ++ manifest.segments.flatMap SegmentMeta.toBytes

def serialize (manifest : Manifest) : Bytes :=
  manifest.payload ++ u32 (Crc32C.compute manifest.payload)

/-- The records of a manifest, appended to those read before. A record that is cut short ends
the loop with the segments so far. -/
def readSegments : Nat → List SegmentMeta → Bytes → List SegmentMeta × Except Stop Unit
  | 0, segments, _ => (segments, .ok ())
  | left + 1, segments, ahead =>
    if ahead.length < 12 then
      (segments, failWith .manifestInvalid "Truncated manifest segment record")
    else
      let segmentId := u64Of (slice ahead 0 8)
      let nameLength := leValue (slice ahead 8 4)
      if ahead.length < 12 + nameLength + 58 then
        (segments, failWith .manifestInvalid "Truncated manifest segment data")
      else
        match SegmentMeta.readTail segmentId (slice ahead 12 nameLength)
          (ahead.drop (12 + nameLength)) with
        | .error stop => (segments, .error stop)
        | .ok (entry, rest) => readSegments left (segments ++ [entry]) rest

/-- The manifest after `deserialize`, which fills it while it reads, and how it ended, for counts
that `segments_.reserve` does not throw for. -/
def deserialize (manifest : Manifest) (data : Bytes) : Manifest × Except Stop Unit :=
  if data.length < 36 then (manifest, failWith .manifestInvalid "Manifest payload too small")
  else
    let body := data.take (data.length - 4)
    if u32Of (data.drop (data.length - 4)) ≠ Crc32C.compute body then
      (manifest, failWith .manifestCorrupted "Manifest CRC mismatch")
    else if u32Of (slice body 0 4) ≠ magic then
      (manifest, failWith .manifestInvalid "Invalid manifest magic")
    else
      let (segments, ended) := readSegments (leValue (slice body 24 8)) [] (body.drop 32)
      ({ version := u32Of (slice body 4 4), nextSegmentId := u64Of (slice body 8
        8), nextTxId := u64Of (slice body 16 8)
         segments }, ended)

/-- `load` on a path: `found` is the file there, if any. -/
def load (manifest : Manifest) (found : Option Bytes) : Manifest × Except Stop Unit :=
  match found with
  | none => (manifest, failWith .fileNotFound "Manifest file not found")
  | some data =>
    if data = [] then (manifest, failWith .manifestInvalid "Empty or invalid manifest file")
    else manifest.deserialize data

/-- The ids of the entries are all different. -/
def Distinct (segments : List SegmentMeta) : Prop := (segments.map (·.segmentId)).Nodup

def entryOf (segments : List SegmentMeta) (segmentId : UInt64) : Option SegmentMeta :=
  segments.find? fun seg => seg.segmentId = segmentId

theorem entryOf_id {segments : List SegmentMeta} {segmentId : UInt64} {entry : SegmentMeta}
    (found : entryOf segments segmentId = some entry) : entry.segmentId = segmentId := by
  simpa using List.find?_some found

theorem entryOf_mem {segments : List SegmentMeta} {segmentId : UInt64} {entry : SegmentMeta}
    (found : entryOf segments segmentId = some entry) : entry ∈ segments :=
  List.mem_of_find?_eq_some found

theorem entryOf_cons (seg : SegmentMeta) (rest : List SegmentMeta) (segmentId : UInt64) :
    entryOf (seg :: rest) segmentId = if seg.segmentId = segmentId then
      some seg else entryOf rest segmentId := by
  by_cases same : seg.segmentId = segmentId <;> simp [entryOf, same]

theorem entryOf_of_mem {segments : List SegmentMeta}
    (distinct : Distinct segments) {entry : SegmentMeta}
    (listed : entry ∈ segments) : entryOf segments entry.segmentId = some entry := by
  induction segments with
  | nil => cases listed
  | cons seg rest ih =>
    rw [Distinct, List.map_cons, List.nodup_cons] at distinct
    rw [entryOf_cons]
    rcases List.mem_cons.mp listed with rfl | later
    · rw [if_pos rfl]
    · have apart : seg.segmentId ≠ entry.segmentId := fun same =>
        distinct.1 (same ▸ List.mem_map_of_mem later)
      rw [if_neg apart]
      exact ih distinct.2 later

theorem entryOf_putSegment (entry : SegmentMeta)
    (segments : List SegmentMeta) (segmentId : UInt64) :
    entryOf (putSegment entry segments) segmentId =
      if entry.segmentId = segmentId then some entry else entryOf segments segmentId := by
  induction segments with
  | nil => simp [putSegment, entryOf_cons]
  | cons seg rest ih =>
    rw [putSegment]
    by_cases same : seg.segmentId = entry.segmentId
    · rw [if_pos same, entryOf_cons, entryOf_cons, same]
      split <;> rfl
    · rw [if_neg same, entryOf_cons, ih, entryOf_cons]
      by_cases here : seg.segmentId = segmentId
      · rw [if_pos here, if_pos here, if_neg fun asked => same (here.trans asked.symm)]
      · rw [if_neg here, if_neg here]

theorem entryOf_dropSegment (dropped : UInt64) (segments : List SegmentMeta) (segmentId : UInt64) :
    entryOf (dropSegment dropped segments) segmentId =
      if dropped = segmentId then
        (entryOf segments segmentId).map fun entry => { entry with active := false }
      else entryOf segments segmentId := by
  induction segments with
  | nil => simp [dropSegment, entryOf]
  | cons seg rest ih =>
    rw [dropSegment]
    by_cases same : seg.segmentId = dropped
    · rw [if_pos same, entryOf_cons, entryOf_cons]
      by_cases here : dropped = segmentId
      · simp [same, here]
      · simp [same, here]
    · rw [if_neg same, entryOf_cons, ih, entryOf_cons]
      by_cases here : seg.segmentId = segmentId
      · rw [if_pos here, if_pos here, if_neg fun asked => same (here.trans asked.symm)]
      · rw [if_neg here, if_neg here]

theorem ids_putSegment (entry : SegmentMeta) (segments : List SegmentMeta) :
    (putSegment entry segments).map (·.segmentId) =
      if entry.segmentId ∈ segments.map (·.segmentId) then segments.map (·.segmentId)
      else segments.map (·.segmentId) ++ [entry.segmentId] := by
  induction segments with
  | nil => simp [putSegment]
  | cons seg rest ih =>
    rw [putSegment]
    by_cases same : seg.segmentId = entry.segmentId
    · simp [same]
    · have apart : entry.segmentId ≠ seg.segmentId := fun asked => same asked.symm
      rw [if_neg same, List.map_cons, ih, List.map_cons]
      by_cases later : entry.segmentId ∈ rest.map (·.segmentId)
      · rw [if_pos later, if_pos (List.mem_cons_of_mem _ later)]
      · rw [if_neg later, if_neg (by simpa [apart] using later), List.cons_append]

theorem ids_dropSegment (dropped : UInt64) (segments : List SegmentMeta) :
    (dropSegment dropped segments).map (·.segmentId) = segments.map (·.segmentId) := by
  induction segments with
  | nil => rfl
  | cons seg rest ih =>
    rw [dropSegment]
    split
    · rfl
    · rw [List.map_cons, ih, List.map_cons]

theorem distinct_putSegment {segments : List SegmentMeta}
    (distinct : Distinct segments) (entry : SegmentMeta) :
    Distinct (putSegment entry segments) := by
  rw [Distinct, ids_putSegment]
  split
  · exact distinct
  · next fresh =>
    refine List.nodup_append.mpr ⟨distinct, List.nodup_singleton _, ?_⟩
    intro known listed other single same
    rw [List.mem_singleton] at single
    exact fresh (single ▸ same ▸ listed)

theorem findSegment_iff {manifest : Manifest}
    (distinct : Distinct manifest.segments) {segmentId : UInt64}
    {entry : SegmentMeta} :
    manifest.findSegment segmentId = some entry ↔
      entryOf manifest.segments segmentId = some entry ∧ entry.active = true := by
  constructor
  · intro found
    have passed := List.find?_some found
    rw [Bool.and_eq_true, decide_eq_true_eq] at passed
    have listed : entry ∈ manifest.segments := List.mem_of_find?_eq_some found
    exact ⟨passed.1 ▸ entryOf_of_mem distinct listed, passed.2⟩
  · rintro ⟨found, active⟩
    have same := entryOf_id found
    cases search : manifest.findSegment segmentId with
    | none =>
      have missed := List.find?_eq_none.mp search entry (entryOf_mem found)
      simp [same, active] at missed
    | some other =>
      have passed := List.find?_some search
      rw [Bool.and_eq_true, decide_eq_true_eq] at passed
      have again :=
        entryOf_of_mem distinct (List.mem_of_find?_eq_some search : other ∈ manifest.segments)
      rw [passed.1, found] at again
      exact again.symm

theorem mem_activeSegments {manifest : Manifest} {entry : SegmentMeta} :
    entry ∈ manifest.activeSegments ↔ entry ∈ manifest.segments ∧ entry.active = true := by
  rw [activeSegments, List.mem_filter]

theorem mem_activeSegments_iff {manifest : Manifest}
    (distinct : Distinct manifest.segments) {entry : SegmentMeta} :
    entry ∈ manifest.activeSegments ↔
      entryOf manifest.segments entry.segmentId = some entry ∧ entry.active = true := by
  rw [mem_activeSegments]
  exact ⟨fun listed => ⟨entryOf_of_mem distinct listed.1, listed.2⟩,
    fun found => ⟨entryOf_mem found.1, found.2⟩⟩

/-- Every name is short enough for its length field. -/
def ShortNames (segments : List SegmentMeta) : Prop :=
  ∀ entry ∈ segments, entry.filename.length < 2 ^ 32

theorem readSegments_flatMap (entries before : List SegmentMeta) (short : ShortNames entries) :
    readSegments entries.length before (entries.flatMap SegmentMeta.toBytes) =
      (before ++ entries, .ok ()) := by
  induction entries generalizing before with
  | nil => simp [readSegments]
  | cons entry rest ih =>
    have nameShort := short entry (by simp)
    have tail := entry.length_tailBytes
    have named : leValue (u32 (UInt32.ofNat entry.filename.length)) = entry.filename.length := by
      rw [u32, UInt32.toNat_ofNat', Nat.mod_eq_of_lt nameShort,
        leValue_le _ _ (by simpa using nameShort)]
    have bytes : (entry :: rest).flatMap SegmentMeta.toBytes =
        u64 entry.segmentId ++ (u32 (UInt32.ofNat entry.filename.length) ++ (entry.filename ++
          (entry.tailBytes ++ rest.flatMap SegmentMeta.toBytes))) := by
      simp [SegmentMeta.toBytes]
    have size : ((entry :: rest).flatMap SegmentMeta.toBytes).length =
        12 + entry.filename.length + 58 + (rest.flatMap SegmentMeta.toBytes).length := by
      rw [bytes]
      simp only [List.length_append, length_u64, length_u32, tail]
      omega
    have idAt : slice ((entry :: rest).flatMap SegmentMeta.toBytes) 0 8 = u64 entry.segmentId := by
      rw [bytes]
      exact slice_append [] _ _ rfl (length_u64 _).symm
    have lengthAt : slice ((entry :: rest).flatMap SegmentMeta.toBytes) 8 4 =
        u32 (UInt32.ofNat entry.filename.length) := by
      rw [bytes]
      exact slice_append _ _ _ (length_u64 _).symm (length_u32 _).symm
    have nameAt : slice ((entry :: rest).flatMap SegmentMeta.toBytes) 12 entry.filename.length =
        entry.filename := by
      rw [bytes, ← List.append_assoc]
      exact slice_append _ _ _ (by simp) rfl
    have tailAt : ((entry :: rest).flatMap SegmentMeta.toBytes).drop (12 + entry.filename.length) =
        entry.tailBytes ++ rest.flatMap SegmentMeta.toBytes := by
      rw [bytes, ← List.append_assoc, ← List.append_assoc]
      exact List.drop_left' (by simp; omega)
    rw [List.length_cons, readSegments, if_neg (by omega)]
    simp only [idAt, lengthAt, named, nameAt, tailAt, u64Of_u64]
    rw [if_neg (by omega), SegmentMeta.readTail_tailBytes]
    have later := ih (before ++ [entry]) fun other listed => short other (by simp [listed])
    simpa using later

theorem deserialize_serialize (old manifest : Manifest) (short : ShortNames manifest.segments)
    (few : manifest.segments.length < 2 ^ 64) :
    old.deserialize manifest.serialize = (manifest, .ok ()) := by
  have size : manifest.serialize.length = manifest.payload.length + 4 := by simp [serialize]
  have long : 32 ≤ manifest.payload.length := by
    simp only [payload, headBytes, List.length_append, length_u32, length_u64]
    omega
  have body : manifest.serialize.take (manifest.serialize.length - 4) = manifest.payload := by
    rw [size, serialize]
    exact List.take_left' rfl
  have crc : u32Of (manifest.serialize.drop (manifest.serialize.length - 4)) =
      Crc32C.compute manifest.payload := by
    rw [size, serialize, List.drop_left' (by omega), u32Of_u32]
  have count : leValue (u64 (UInt64.ofNat manifest.segments.length)) =
      manifest.segments.length := by
    rw [u64, UInt64.toNat_ofNat', Nat.mod_eq_of_lt few, leValue_le _ _ (by simpa using few)]
  have parts : manifest.payload =
      u32 magic ++ (u32 manifest.version ++ (u64 manifest.nextSegmentId ++
      (u64 manifest.nextTxId ++ (u64 (UInt64.ofNat manifest.segments.length) ++
        manifest.segments.flatMap SegmentMeta.toBytes)))) := by
    simp [payload, headBytes]
  have magicAt : u32Of (slice manifest.payload 0 4) = magic := by
    rw [parts, slice, List.drop_zero, List.take_left' (length_u32 _), u32Of_u32]
  have versionAt : u32Of (slice manifest.payload 4 4) = manifest.version := by
    rw [parts, slice_append _ _ _ (length_u32 _).symm (length_u32 _).symm, u32Of_u32]
  have segmentAt : u64Of (slice manifest.payload 8 8) = manifest.nextSegmentId := by
    rw [parts, ← List.append_assoc, slice_append _ _ _ (by simp) (length_u64 _).symm, u64Of_u64]
  have txAt : u64Of (slice manifest.payload 16 8) = manifest.nextTxId := by
    rw [parts, ← List.append_assoc, ← List.append_assoc, slice_append _ _ _ (by simp)
      (length_u64 _).symm, u64Of_u64]
  have countAt : leValue (slice manifest.payload 24 8) = manifest.segments.length := by
    rw [parts, ← List.append_assoc, ← List.append_assoc, ← List.append_assoc,
      slice_append _ _ _ (by simp) (length_u64 _).symm, count]
  have recordsAt : manifest.payload.drop 32 = manifest.segments.flatMap SegmentMeta.toBytes := by
    rw [parts, ← List.append_assoc, ← List.append_assoc, ← List.append_assoc, ← List.append_assoc,
      List.drop_left' (by simp)]
  rw [deserialize, if_neg (by omega)]
  simp only [body]
  rw [if_neg (not_not_intro crc), if_neg (not_not_intro magicAt), countAt, recordsAt,
    readSegments_flatMap _ _ short, versionAt, segmentAt, txAt]
  rfl

theorem load_serialize (old manifest : Manifest) (short : ShortNames manifest.segments)
    (few : manifest.segments.length < 2 ^ 64) :
    old.load (some manifest.serialize) = (manifest, .ok ()) := by
  have some : manifest.serialize ≠ [] := List.ne_nil_of_length_pos (by simp [serialize])
  rw [load]
  simp only [if_neg some]
  exact deserialize_serialize old manifest short few

/-- A round trip gives every field back, for names of any bytes and any number of segments a
vector can hold. -/
theorem manifest_round_trip (old manifest : Manifest) (short : ShortNames manifest.segments)
    (few : manifest.segments.length < 2 ^ 64) :
    old.deserialize manifest.serialize = (manifest, .ok ()) :=
  deserialize_serialize old manifest short few

/-- Two segments, one with a NUL byte in its name and one with an empty name. -/
def namedManifest : Manifest where
  version := 3
  nextSegmentId := 9
  nextTxId := 4
  segments :=
    [{ segmentId := 7, filename := [115, 0, 49], rowCount := 12, isCompacted := true },
    { active := false }]

theorem manifest_round_trip_named :
    Manifest.deserialize {} namedManifest.serialize = (namedManifest, .ok ()) :=
  manifest_round_trip {} namedManifest
    (by
      intro entry listed
      simp only [namedManifest, List.mem_cons, List.not_mem_nil, or_false] at listed
      rcases listed with rfl | rfl
      · decide
      · decide)
    (by decide)

end Manifest

end VectorTick
