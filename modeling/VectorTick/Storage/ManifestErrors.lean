import VectorTick.Storage.Catalog

/-! Which files leave the manifest as it was when they fail to load.

The object is filled while its file is read: the fields of the header come first, the records
follow one by one. What fails before that leaves the object alone, what fails behind it does not.
-/

set_option autoImplicit false

namespace VectorTick

open Foundation Vts1

namespace Manifest

def recordSize (ahead : Bytes) : Nat := 12 + leValue (slice ahead 8 4) + 58

def AllThere : Nat → Bytes → Prop
  | 0, _ => True
  | left + 1, ahead =>
    recordSize ahead ≤ ahead.length ∧ AllThere left (ahead.drop (recordSize ahead))

instance AllThere.decidable : (left : Nat) → (ahead : Bytes) → Decidable (AllThere left ahead)
  | 0, _ => .isTrue trivial
  | left + 1, ahead =>
    have := AllThere.decidable left (ahead.drop (recordSize ahead))
    inferInstanceAs (Decidable (_ ∧ _))

theorem readSegments_succ (left : Nat) (segments : List SegmentMeta) (ahead : Bytes) :
    (recordSize ahead ≤ ahead.length ∧ ∃ entry,
      readSegments (left + 1) segments ahead = readSegments left (segments ++ [entry])
      (ahead.drop (recordSize ahead))) ∨
    (ahead.length < recordSize ahead ∧ ∃ status,
      readSegments (left + 1) segments ahead = (segments, .error (.status status))) := by
  rw [readSegments]
  by_cases short : ahead.length < 12
  · rw [if_pos short]
    exact .inr ⟨by unfold recordSize; omega, ⟨.manifestInvalid,
      "Truncated manifest segment record"⟩, rfl⟩
  rw [if_neg short]
  by_cases cut : ahead.length < 12 + leValue (slice ahead 8 4) + 58
  · exact .inr ⟨cut, ⟨.manifestInvalid, "Truncated manifest segment data"⟩, if_pos cut⟩
  · obtain ⟨entry, read⟩ := SegmentMeta.readTail_drop (u64Of (slice ahead 0 8))
      (slice ahead 12 (leValue (slice ahead 8 4))) (Nat.le_of_not_lt cut)
    refine .inl ⟨Nat.le_of_not_lt cut, entry, ?_⟩
    simp only [if_neg cut, read]
    rfl

theorem readSegments_ended (left : Nat) (segments : List SegmentMeta) (ahead : Bytes) :
    (AllThere left ahead ∧ (readSegments left segments ahead).2 = .ok ()) ∨
    (¬ AllThere left ahead ∧ ∃ status, (readSegments left segments ahead).2 =
      .error (.status status)) := by
  induction left generalizing segments ahead with
  | zero => exact .inl ⟨trivial, rfl⟩
  | succ left ih =>
    rcases readSegments_succ left segments ahead with ⟨there, entry, read⟩ | ⟨cut, status, read⟩
    · rw [read]
      rcases ih (segments ++ [entry]) (ahead.drop (recordSize ahead)) with
        ⟨rest, ended⟩ | ⟨missing, ended⟩
      · exact .inl ⟨⟨there, rest⟩, ended⟩
      · exact .inr ⟨fun all => missing all.2, ended⟩
    · rw [read]
      exact .inr ⟨fun all => Nat.not_le_of_lt cut all.1, status, rfl⟩

def checkedBytes (data : Bytes) : Bytes := data.take (data.length - 4)

/-- Long enough, with the right checksum and the right magic. -/
structure HeaderPasses (data : Bytes) : Prop where
  long : 36 ≤ data.length
  checksum : u32Of (data.drop (data.length - 4)) = Crc32C.compute (checkedBytes data)
  magic : u32Of (slice (checkedBytes data) 0 4) = Manifest.magic

instance (data : Bytes) : Decidable (HeaderPasses data) :=
  decidable_of_iff (36 ≤ data.length ∧ u32Of (data.drop (data.length - 4)) =
    Crc32C.compute (checkedBytes data) ∧
    u32Of (slice (checkedBytes data) 0 4) = Manifest.magic)
    ⟨fun all => ⟨all.1, all.2.1, all.2.2⟩, fun all => ⟨all.long, all.checksum, all.magic⟩⟩

def announced (data : Bytes) : Nat := leValue (slice (checkedBytes data) 24 8)

/-- The header passes, but an announced record does not lie within the bytes. -/
def CutShort (data : Bytes) : Prop :=
  HeaderPasses data ∧ ¬ AllThere (announced data) ((checkedBytes data).drop 32)

instance (data : Bytes) : Decidable (CutShort data) := inferInstanceAs (Decidable (_ ∧ _))

theorem deserialize_cases (data : Bytes) :
    (¬ HeaderPasses data ∧ ∃ status, ∀ manifest : Manifest,
      manifest.deserialize data = (manifest, .error (.status status))) ∨
    (HeaderPasses data ∧
      ∃ filled ended, (∀ manifest : Manifest, manifest.deserialize data = (filled, ended)) ∧
      (ended = .ok () ↔ ¬ CutShort data) ∧
        ((∃ status, ended = .error (.status status)) ↔ CutShort data)) := by
  by_cases short : data.length < 36
  · refine .inl ⟨fun passes => Nat.not_le_of_lt short passes.long,
      ⟨.manifestInvalid, "Manifest payload too small"⟩, fun manifest => ?_⟩
    rw [deserialize, if_pos short]
    rfl
  by_cases checksum : u32Of (data.drop (data.length - 4)) = Crc32C.compute (checkedBytes data)
  swap
  · refine .inl ⟨fun passes => checksum passes.checksum,
      ⟨.manifestCorrupted, "Manifest CRC mismatch"⟩, fun manifest => ?_⟩
    rw [deserialize, if_neg short]
    exact if_pos checksum
  by_cases right : u32Of (slice (checkedBytes data) 0 4) = magic
  swap
  · refine .inl ⟨fun passes => right passes.magic,
      ⟨.manifestInvalid, "Invalid manifest magic"⟩, fun manifest => ?_⟩
    rw [deserialize, if_neg short]
    exact (if_neg (not_not_intro checksum)).trans (if_pos right)
  have passes : HeaderPasses data := ⟨Nat.le_of_not_lt short, checksum, right⟩
  have ended := readSegments_ended (announced data) [] ((checkedBytes data).drop 32)
  generalize loop : readSegments (announced data) []
    ((checkedBytes data).drop 32) = records at ended
  refine .inr ⟨passes,
    { version := u32Of (slice (checkedBytes data) 4 4),
      nextSegmentId := u64Of (slice (checkedBytes data) 8 8)
      nextTxId := u64Of (slice (checkedBytes data) 16 8), segments :=
        records.1 }, records.2, fun manifest => ?_, ?_⟩
  · rw [deserialize, if_neg short]
    rw [← loop]
    exact (if_neg (not_not_intro checksum)).trans (if_neg (not_not_intro right))
  · rcases ended with ⟨all, done⟩ | ⟨cut, status, stopped⟩
    · simp [CutShort, all, done]
    · simp [CutShort, passes, cut, stopped]

def maxSegments : Nat := (2 ^ 63 - 1) / 104

/-- A call on these bytes comes back: behind a header that passes, `segments_.reserve` throws for
more records than a vector can hold. -/
def Returns (data : Bytes) : Prop := HeaderPasses data → announced data ≤ maxSegments

/-- A failing load of the bytes changes no manifest, and recovery goes on from the one it had. -/
structure FailureLeaves (data : Bytes) : Prop where
  object : Returns data → ∀ (manifest : Manifest) (stop : Stop),
    (manifest.deserialize data).2 = .error stop → (manifest.deserialize data).1 = manifest
  recovery : Returns data → ∀ (disk : Disk Path) (manifest : Manifest) (stop : Stop),
    disk manifestPath = some data →
    (manifest.load (some data)).2 = .error stop → Catalog.loadManifest disk manifest = manifest

theorem load_failed {data : Bytes} {manifest : Manifest}
    (leaves : ∀ stop, (manifest.deserialize data).2 = .error stop →
      (manifest.deserialize data).1 = manifest)
    {stop : Stop} (failed : (manifest.load (some data)).2 = .error stop) :
    (manifest.load (some data)).1 = manifest := by
  rw [load] at failed ⊢
  by_cases empty : data = []
  · simp only [if_pos empty]
  · simp only [if_neg empty] at failed ⊢
    exact leaves stop failed

/-- A file that fails to load changes nothing, except where its header passes and a record of it
is cut short: then the object holds the header and the records before. -/
theorem failure_leaves_iff (data : Bytes) : FailureLeaves data ↔
    ¬ (Returns data ∧ CutShort data) := by
  rcases deserialize_cases data with ⟨refused, status, same⟩ |
    ⟨passes, filled, ended, same, good, failed⟩
  · have unchanged (manifest : Manifest) (stop : Stop) :
        (manifest.deserialize data).2 = .error stop → (manifest.deserialize data).1 = manifest :=
      fun _ => by rw [same]
    refine iff_of_true ⟨fun _ => unchanged, fun _ disk manifest stop found failing => ?_⟩
      fun cut => refused cut.2.1
    rw [Catalog.loadManifest, found]
    exact load_failed (unchanged manifest) failing
  constructor
  · -- Two different objects end up the same, so one of them has changed.
    rintro ⟨leaves, -⟩ ⟨returns, cut⟩
    obtain ⟨status, stopped⟩ := failed.mpr cut
    have fresh := leaves returns {} (.status status) (by rw [same, stopped])
    have other := leaves returns { version := 2 } (.status status) (by rw [same, stopped])
    rw [same] at fresh other
    exact absurd (congrArg Manifest.version (fresh.symm.trans other)) (by decide)
  · intro whole
    have unchanged (returns : Returns data) (manifest : Manifest) (stop : Stop) :
        (manifest.deserialize data).2 = .error stop → (manifest.deserialize data).1 = manifest := by
      intro failing
      rw [same, good.mpr fun cut => whole ⟨returns, cut⟩] at failing
      cases failing
    refine ⟨unchanged, fun returns disk manifest stop found failing => ?_⟩
    rw [Catalog.loadManifest, found]
    exact load_failed (unchanged returns manifest) failing

def cutManifest : Bytes :=
  let head := headBytes { version := 2, nextSegmentId := 5, nextTxId := 3, segments := [{}] }
  head ++ u32 (Crc32C.compute head)

def heldManifest : Manifest := { nextSegmentId := 8, segments := [{ segmentId := 7 }] }

theorem cut_file_replaces :
    heldManifest.deserialize cutManifest =
      ({ version := 2, nextSegmentId := 5, nextTxId := 3 },
        failWith .manifestInvalid "Truncated manifest segment record") ∧
    Catalog.recovered (fun path => if path = manifestPath then some cutManifest
      else none) heldManifest =
      .ok { version := 2, nextSegmentId := 5, nextTxId := 3 } ∧
    ¬ FailureLeaves cutManifest := by
  have read : heldManifest.deserialize cutManifest =
      ({ version := 2, nextSegmentId := 5, nextTxId := 3 },
      failWith .manifestInvalid "Truncated manifest segment record") := by
    decide +kernel
  refine ⟨read, by decide +kernel, fun leaves => ?_⟩
  have returns : Returns cutManifest := fun _ => by decide
  have kept := leaves.object returns heldManifest _ (congrArg Prod.snd read)
  rw [read] at kept
  exact absurd (congrArg Manifest.version kept) (by decide)

end Manifest

end VectorTick
