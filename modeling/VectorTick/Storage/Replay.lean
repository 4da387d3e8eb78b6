import VectorTick.Storage.Catalog
import VectorTick.Storage.JournalLog

/-! What recovery makes of a manifest, the transactions of a journal and the segment files. -/

set_option autoImplicit false

namespace VectorTick

open Foundation Vts1

theorem digit_of_mem_decimal {number : UInt64} {byte : UInt8} (listed : byte ∈ decimal number) :
    48 ≤ byte.toNat ∧ byte.toNat ≤ 57 := by
  obtain ⟨digit, found, rfl⟩ := List.mem_map.mp listed
  have isDigit := Nat.isDigit_of_mem_toDigits (by decide) (by decide) found
  rw [Char.isDigit, Bool.and_eq_true, decide_eq_true_eq, decide_eq_true_eq] at isDigit
  have low : 48 ≤ digit.toNat := isDigit.1
  have high : digit.toNat ≤ 57 := isDigit.2
  rw [UInt8.toNat_ofNat', Nat.mod_eq_of_lt (by omega)]
  exact ⟨low, high⟩

theorem decimal_injective {first second : UInt64} (same : decimal first = decimal second) :
    first = second := by
  have restore : ∀ number : UInt64, (decimal number).map (fun byte => Char.ofNat byte.toNat) =
      Nat.toDigits 10 number.toNat := by
    intro number
    rw [decimal, List.map_map]
    refine (List.map_congr_left fun digit found => ?_).trans (List.map_id _)
    have isDigit := Nat.isDigit_of_mem_toDigits (by decide) (by decide) found
    rw [Char.isDigit, Bool.and_eq_true, decide_eq_true_eq, decide_eq_true_eq] at isDigit
    have high : digit.toNat ≤ 57 := isDigit.2
    rw [Function.comp, UInt8.toNat_ofNat', Nat.mod_eq_of_lt (by omega), Char.ofNat_toNat, id]
  have digits : Nat.toDigits 10 first.toNat = Nat.toDigits 10 second.toNat := by
    rw [← restore, ← restore, same]
  apply UInt64.toNat_inj.mp
  rw [← @Nat.ofDigitChars_ten_toDigits first.toNat, digits, Nat.ofDigitChars_ten_toDigits]

theorem segmentName_injective {first second : UInt64}
    (same : segmentName first = segmentName second) :
    first = second := by
  have tail := List.append_cancel_left same
  exact decimal_injective (List.append_cancel_right tail)

theorem length_segmentName (segmentId : UInt64) : (segmentName segmentId).length ≤ 32 := by
  have digits : (decimal segmentId).length ≤ 20 := by
    rw [decimal, List.length_map, Nat.length_toDigits_le_iff (by decide) (by decide)]
    have small := segmentId.toNat_lt
    omega
  have front : (nameBytes "segment_").length = 8 := by decide
  have back : (nameBytes ".vts").length = 4 := by decide
  rw [segmentName, List.length_append, List.length_append, front, back]
  omega

/-- Searching for something that starts with a dot skips what has no dot. -/
theorem contains_append {needle front : Bytes} (noDot : ∀ byte ∈ front, byte ≠ 46) (rest : Bytes) :
    contains (46 :: needle) (front ++ rest) = contains (46 :: needle) rest := by
  induction front with
  | nil => rfl
  | cons byte others ih =>
    have here : (46 : UInt8) ≠ byte := fun same => noDot byte (by simp) same.symm
    rw [List.cons_append, contains, ih fun other listed => noDot other (by simp [listed])]
    simp [List.isPrefixOf, here]

theorem isTemporary_segmentPath (segmentId : UInt64) :
    isTemporary (segmentPath segmentId) = false := by
  have needle : nameBytes ".tmp" = 46 :: [116, 109, 112] := by decide
  have digits : ∀ byte ∈ decimal segmentId, byte ≠ 46 := by
    rintro byte listed rfl
    exact absurd (digit_of_mem_decimal listed).1 (by decide)
  have letters : nameBytes "segment_" = [115, 101, 103, 109, 101, 110, 116, 95] := by decide
  have plain : ∀ byte ∈ nameBytes "segment_", byte ≠ 46 := by
    intro byte listed
    rw [letters] at listed
    simp only [List.mem_cons, List.not_mem_nil, or_false] at listed
    rcases listed with rfl | rfl | rfl | rfl | rfl | rfl | rfl | rfl <;> decide
  rw [segmentPath, isTemporary, segmentName, needle, contains_append plain, contains_append digits]
  decide

theorem isTemporary_compactTmpPath (segmentId : UInt64) :
    isTemporary (compactTmpPath segmentId) = true := by
  rw [compactTmpPath, isTemporary]
  rfl

theorem segmentPath_inj {first second : UInt64} : segmentPath first = segmentPath second ↔
    first = second := by
  constructor
  · intro same
    exact segmentName_injective (Path.root.inj same)
  · rintro rfl
    rfl

/-- A path that is not one of the catalog's own durable files. -/
structure Foreign (path : Path) : Prop where
  manifest : path ≠ manifestPath
  journal : path ≠ journalPath
  segment : ∀ segmentId, path ≠ segmentPath segmentId

theorem foreign_of_isTemporary {path : Path} (temporary : isTemporary path = true) :
    Foreign path where
  manifest := by
    rintro rfl
    exact absurd temporary (by decide)
  journal := by
    rintro rfl
    exact absurd temporary (by decide)
  segment := by
    rintro segmentId rfl
    rw [isTemporary_segmentPath] at temporary
    cases temporary

theorem head_segmentName (segmentId : UInt64) : (segmentName segmentId).head? = some 115 := rfl

theorem segmentPath_ne {segmentId : UInt64} {name : Bytes} (other : name.head? ≠ some 115) :
    segmentPath segmentId ≠ .root name := by
  intro same
  rw [← Path.root.inj same] at other
  exact other (head_segmentName segmentId)

theorem segmentPath_ne_manifest (segmentId : UInt64) : segmentPath segmentId ≠ manifestPath :=
  segmentPath_ne (by decide)

theorem segmentPath_ne_journal (segmentId : UInt64) : segmentPath segmentId ≠ journalPath :=
  segmentPath_ne (by decide)

theorem manifest_ne_journal : manifestPath ≠ journalPath := by decide

namespace Manifest

/-- Ids differ and lie below the next one, and names follow from ids. -/
structure Sound (manifest : Manifest) : Prop where
  distinct : Distinct manifest.segments
  named : ∀ entry ∈ manifest.segments, entry.filename = segmentName entry.segmentId
  below : ∀ entry ∈ manifest.segments, entry.segmentId.toNat < manifest.nextSegmentId.toNat

namespace Sound

variable {manifest : Manifest}

theorem shortNames (sound : manifest.Sound) : ShortNames manifest.segments := by
  intro entry listed
  have bounded := length_segmentName entry.segmentId
  rw [sound.named entry listed]
  omega

theorem few (sound : manifest.Sound) : manifest.segments.length < 2 ^ 64 := by
  have distinct : ((manifest.segments.map (·.segmentId)).map UInt64.toNat).Nodup :=
    sound.distinct.map fun first second same => UInt64.toNat_inj.mp same
  have contained : (manifest.segments.map (·.segmentId)).map UInt64.toNat ⊆ List.range
      manifest.nextSegmentId.toNat := by
    intro number listed
    simp only [List.map_map, List.mem_map, Function.comp] at listed
    obtain ⟨entry, found, rfl⟩ := listed
    exact List.mem_range.mpr (sound.below entry found)
  have counted := (List.subperm_of_subset distinct contained).length_le
  rw [List.length_map, List.length_map, List.length_range] at counted
  have small := manifest.nextSegmentId.toNat_lt
  omega

theorem load_serialize (sound : manifest.Sound) (old : Manifest) :
    old.load (some manifest.serialize) = (manifest, .ok ()) :=
  Manifest.load_serialize old manifest sound.shortNames sound.few

/-- Ids and names decide soundness; a larger next id does no harm. -/
theorem of_ids {other : Manifest} (sound : manifest.Sound)
    (ids : other.segments.map (·.segmentId) = manifest.segments.map (·.segmentId))
    (names : ∀ entry ∈ other.segments, entry.filename = segmentName entry.segmentId)
    (next : manifest.nextSegmentId.toNat ≤ other.nextSegmentId.toNat) : other.Sound where
  distinct := by
    rw [Distinct, ids]
    exact sound.distinct
  named := names
  below := by
    intro entry listed
    have known : entry.segmentId ∈ manifest.segments.map (·.segmentId) :=
      ids ▸ List.mem_map_of_mem listed
    obtain ⟨old, found, same⟩ := List.mem_map.mp known
    have small := sound.below old found
    rw [same] at small
    omega

end Sound

theorem mem_putSegment {entry other : SegmentMeta} {segments : List SegmentMeta}
    (listed : other ∈ putSegment entry segments) : other = entry ∨ other ∈ segments := by
  induction segments with
  | nil => exact .inl (List.mem_singleton.mp listed)
  | cons seg rest ih =>
    rw [putSegment] at listed
    split at listed
    · rcases List.mem_cons.mp listed with rfl | later
      · exact .inl rfl
      · exact .inr (List.mem_cons_of_mem _ later)
    · rcases List.mem_cons.mp listed with rfl | later
      · exact .inr List.mem_cons_self
      · exact (ih later).imp_right (List.mem_cons_of_mem _)

theorem Sound.addSegment {manifest : Manifest} (sound : manifest.Sound) {entry : SegmentMeta}
    (named : entry.filename = segmentName entry.segmentId) {next : UInt64}
    (grows : manifest.nextSegmentId.toNat ≤ next.toNat)
    (below : entry.segmentId.toNat < next.toNat) :
    { manifest.addSegment entry with nextSegmentId := next }.Sound where
  distinct := distinct_putSegment sound.distinct entry
  named := by
    intro other listed
    rcases mem_putSegment listed with rfl | old
    · exact named
    · exact sound.named other old
  below := by
    intro other listed
    rcases mem_putSegment listed with rfl | old
    · exact below
    · have small := sound.below other old
      simp only
      omega

theorem mem_dropSegment {dropped : UInt64} {other : SegmentMeta} {segments : List SegmentMeta}
    (listed : other ∈ dropSegment dropped segments) :
    other ∈ segments ∨ ∃ entry ∈ segments, other = { entry with active := false } := by
  induction segments with
  | nil => cases listed
  | cons seg rest ih =>
    rw [dropSegment] at listed
    split at listed
    · rcases List.mem_cons.mp listed with rfl | later
      · exact .inr ⟨seg, List.mem_cons_self, rfl⟩
      · exact .inl (List.mem_cons_of_mem _ later)
    · rcases List.mem_cons.mp listed with rfl | later
      · exact .inl List.mem_cons_self
      · rcases ih later with old | ⟨entry, found, same⟩
        · exact .inl (List.mem_cons_of_mem _ old)
        · exact .inr ⟨entry, List.mem_cons_of_mem _ found, same⟩

theorem Sound.removeSegment {manifest : Manifest} (sound : manifest.Sound) (dropped : UInt64) :
    (manifest.removeSegment dropped).Sound := by
  refine sound.of_ids (ids_dropSegment dropped manifest.segments) (fun entry listed => ?_) le_rfl
  rcases mem_dropSegment listed with old | ⟨entry, found, rfl⟩
  · exact sound.named entry old
  · exact sound.named entry found

theorem Sound.removeSegments {manifest : Manifest} (sound : manifest.Sound) (ids : List UInt64) :
    (ids.foldl Manifest.removeSegment manifest).Sound := by
  induction ids generalizing manifest with
  | nil => exact sound
  | cons dropped rest ih => exact ih (sound.removeSegment dropped)

theorem filter_dropSegment {segments : List SegmentMeta}
    (distinct : Distinct segments) (dropped : UInt64) :
    (dropSegment dropped segments).filter (·.active) =
      (segments.filter (·.active)).filter (·.segmentId ≠ dropped) := by
  induction segments with
  | nil => rfl
  | cons seg rest ih =>
    obtain ⟨fresh, others⟩ := List.nodup_cons.mp distinct
    rw [dropSegment]
    split
    · next same =>
      have untouched : (rest.filter (·.active)).filter (·.segmentId ≠ dropped) =
          rest.filter (·.active) := by
        rw [List.filter_eq_self]
        intro other listed
        rw [decide_eq_true_eq, ← same]
        intro equal
        exact fresh (List.mem_map.mpr ⟨other, List.mem_of_mem_filter listed, equal⟩)
      rw [List.filter_cons_of_neg (by simp), List.filter_cons]
      split
      · rw [List.filter_cons_of_neg (by simp [same]), untouched]
      · rw [untouched]
    · next apart =>
      rw [List.filter_cons, List.filter_cons, ih others]
      split
      · rw [List.filter_cons_of_pos (by simpa using apart)]
      · rfl

theorem Sound.active_removeSegments {manifest : Manifest}
    (sound : manifest.Sound) (ids : List UInt64) :
    (ids.foldl Manifest.removeSegment manifest).activeSegments =
      manifest.activeSegments.filter (·.segmentId ∉ ids) := by
  induction ids generalizing manifest with
  | nil => simp
  | cons dropped rest ih =>
    rw [List.foldl_cons, ih (sound.removeSegment dropped), Manifest.activeSegments,
      Manifest.removeSegment, filter_dropSegment sound.distinct, List.filter_filter,
      Manifest.activeSegments]
    congr 1
    funext seg
    by_cases first : seg.segmentId = dropped <;> by_cases later : seg.segmentId ∈
      rest <;> simp [first, later]

theorem putSegment_fresh {entry : SegmentMeta} {segments : List SegmentMeta}
    (fresh : ∀ seg ∈ segments, seg.segmentId ≠ entry.segmentId) :
    putSegment entry segments = segments ++ [entry] := by
  induction segments with
  | nil => rfl
  | cons seg rest ih =>
    rw [putSegment, if_neg (fresh seg (by simp)), ih fun other listed =>
      fresh other (by simp [listed]), List.cons_append]

theorem sound_empty : ({} : Manifest).Sound where
  distinct := List.nodup_nil
  named := by simp
  below := by simp

/-- An entry with its flag cleared unless a condition holds. -/
def keptIf (kept : Bool) (entry : SegmentMeta) : SegmentMeta :=
  { entry with active := entry.active && kept }

@[simp] theorem keptIf_true (entry : SegmentMeta) : keptIf true entry = entry := by simp [keptIf]

@[simp] theorem keptIf_segmentId (kept : Bool) (entry : SegmentMeta) :
    (keptIf kept entry).segmentId = entry.segmentId :=
  rfl

@[simp] theorem keptIf_filename (kept : Bool) (entry : SegmentMeta) :
    (keptIf kept entry).filename = entry.filename :=
  rfl

theorem keptIf_keptIf (first second : Bool) (entry : SegmentMeta) :
    keptIf second (keptIf first entry) = keptIf (first && second) entry := by
  simp [keptIf, Bool.and_assoc]

theorem entryOf_removeSegments (ids : List UInt64) (manifest : Manifest) (segmentId : UInt64) :
    entryOf (ids.foldl Manifest.removeSegment manifest).segments segmentId =
      (entryOf manifest.segments segmentId).map (keptIf (segmentId ∉ ids)) := by
  induction ids generalizing manifest with
  | nil => cases h : entryOf manifest.segments segmentId <;> simp [keptIf, h]
  | cons dropped rest ih =>
    rw [List.foldl_cons, ih, Manifest.removeSegment]
    simp only [entryOf_dropSegment]
    by_cases here : dropped = segmentId
    · subst here
      cases entryOf manifest.segments dropped <;> simp [keptIf]
    · have apart : segmentId ≠ dropped := fun same => here same.symm
      rw [if_neg here]
      simp [apart]

end Manifest

namespace Catalog

open Manifest Journal

variable {disk : Disk Path}

/-- The entry is named after its id, as every entry of the journal is. -/
def Named (entry : SegmentMeta) : Prop := entry.filename = segmentName entry.segmentId

theorem replayAdd_segments (manifest : Manifest) (entry : SegmentMeta) :
    (replayAdd disk manifest entry).segments =
      if (disk (.root entry.filename)).isSome then putSegment entry manifest.segments
        else manifest.segments := by
  rw [replayAdd]
  split
  · dsimp only
    split <;> rfl
  · rfl

theorem entryOf_adds_other {entries : List SegmentMeta} {segmentId : UInt64}
    (others : ∀ entry ∈ entries, entry.segmentId ≠ segmentId) (manifest : Manifest) :
    entryOf (entries.foldl (replayAdd disk) manifest).segments segmentId =
      entryOf manifest.segments segmentId := by
  induction entries generalizing manifest with
  | nil => rfl
  | cons entry rest ih =>
    rw [List.foldl_cons, ih fun other listed => others other (by simp [listed]), replayAdd_segments]
    split
    · rw [entryOf_putSegment, if_neg (others entry (by simp))]
    · rfl

/-- The last addition of a segment whose file is there decides its entry. -/
theorem entryOf_adds_last {entries : List SegmentMeta} {entry : SegmentMeta} (named : Named entry)
    (present : (disk (segmentPath entry.segmentId)).isSome) (manifest : Manifest) :
    entryOf ((entries ++ [entry]).foldl (replayAdd disk) manifest).segments entry.segmentId =
      some entry := by
  rw [segmentPath] at present
  rw [List.foldl_append, List.foldl_cons, List.foldl_nil, replayAdd_segments, named, if_pos present,
    entryOf_putSegment, if_pos rfl]

/-- The additions and removals of a transaction. -/
def replayBody (disk : Disk Path) (manifest : Manifest) (tx : RecoveredTx) : Manifest :=
  tx.removedSegments.foldl Manifest.removeSegment (tx.addedSegments.foldl (replayAdd disk) manifest)

theorem replayTx_committed {tx : RecoveredTx}
    (committed : tx.committed = true) (manifest : Manifest) :
    replayTx disk manifest tx =
      if tx.txId ≥ (replayBody disk manifest tx).nextTxId then
        { replayBody disk manifest tx with nextTxId := tx.txId + 1 }
      else replayBody disk manifest tx := by
  rw [replayTx, committed]
  rfl

theorem replayTx_segments {tx : RecoveredTx}
    (committed : tx.committed = true) (manifest : Manifest) :
    (replayTx disk manifest tx).segments = (replayBody disk manifest tx).segments := by
  rw [replayTx_committed committed]
  split <;> rfl

theorem replayTx_uncommitted {tx : RecoveredTx}
    (open' : tx.committed = false) (manifest : Manifest) :
    replayTx disk manifest tx = manifest := by
  rw [replayTx, open']
  rfl

/-- Transactions that do not add a segment can only switch it off. -/
theorem entryOf_replay_other {txs : List RecoveredTx} {segmentId : UInt64}
    (others : ∀ tx ∈ txs, ∀ entry ∈ tx.addedSegments, entry.segmentId ≠ segmentId)
    (manifest : Manifest) :
    entryOf (replay disk manifest txs).segments segmentId =
      (entryOf manifest.segments segmentId).map
      (keptIf (∀ tx ∈ txs, tx.committed = true → segmentId ∉ tx.removedSegments)) := by
  induction txs generalizing manifest with
  | nil => cases h : entryOf manifest.segments segmentId <;> simp [replay, h]
  | cons tx rest ih =>
    rw [replay, List.foldl_cons, ← replay, ih fun tx listed => others tx (by simp [listed])]
    cases committed : tx.committed with
    | false =>
      rw [replayTx_uncommitted committed]
      simp [committed]
    | true =>
      rw [replayTx_segments committed, replayBody, entryOf_removeSegments,
        entryOf_adds_other (others tx (by simp)), Option.map_map]
      congr 1
      funext entry
      rw [Function.comp, keptIf_keptIf]
      congr 1
      simp [committed]

/-- The transaction that adds a segment last decides its entry, up to later removals. -/
theorem entryOf_replay_owner (disk : Disk Path) (before : List RecoveredTx)
    {after : List RecoveredTx}
    {tx : RecoveredTx} {entries : List SegmentMeta}
    {entry : SegmentMeta} (committed : tx.committed = true)
    (last : tx.addedSegments = entries ++ [entry])
    (named : Named entry) (present : (disk (segmentPath entry.segmentId)).isSome)
    (others : ∀ tx ∈ after, ∀ other ∈ tx.addedSegments, other.segmentId ≠ entry.segmentId)
    (manifest : Manifest) :
    entryOf (replay disk manifest (before ++ tx :: after)).segments entry.segmentId =
      some (keptIf (∀ later ∈ tx :: after, later.committed = true →
        entry.segmentId ∉ later.removedSegments) entry) := by
  rw [replay, List.foldl_append, List.foldl_cons, ← replay, ← replay, entryOf_replay_other others,
    replayTx_segments committed, replayBody, entryOf_removeSegments, last,
    entryOf_adds_last named present, Option.map_some, Option.map_some, keptIf_keptIf]
  congr 2
  simp [committed]

/-- The transactions of a journal whose ids leave room for the next one. -/
structure Replayable (txs : List RecoveredTx) : Prop where
  named : ∀ tx ∈ txs, ∀ entry ∈ tx.addedSegments, Named entry
  segmentRoom : ∀ tx ∈ txs, ∀ entry ∈ tx.addedSegments, entry.segmentId.toNat + 1 < 2 ^ 64
  txRoom : ∀ tx ∈ txs, tx.txId.toNat + 1 < 2 ^ 64

theorem toNat_succ {id : UInt64} (room : id.toNat + 1 < 2 ^ 64) :
    (id + 1).toNat = id.toNat + 1 := by
  rw [UInt64.toNat_add, UInt64.toNat_one, Nat.mod_eq_of_lt room]

theorem replayAdd_nextSegmentId (disk : Disk Path) {entry : SegmentMeta} (named : Named entry)
    (room : entry.segmentId.toNat + 1 < 2 ^ 64)
    (manifest : Manifest) :
    (replayAdd disk manifest entry).nextSegmentId.toNat =
      if (disk (segmentPath entry.segmentId)).isSome then
        max manifest.nextSegmentId.toNat (entry.segmentId.toNat + 1)
      else manifest.nextSegmentId.toNat := by
  have succ := toNat_succ room
  rw [replayAdd, named, ← segmentPath]
  split
  · dsimp only [Manifest.addSegment]
    split
    · next reached =>
      rw [ge_iff_le, UInt64.le_iff_toNat_le] at reached
      simp only [succ]
      omega
    · next apart =>
      rw [ge_iff_le, UInt64.le_iff_toNat_le] at apart
      simp only
      omega
  · rfl

theorem replayAdd_nextTxId (manifest : Manifest) (entry : SegmentMeta) :
    (replayAdd disk manifest entry).nextTxId = manifest.nextTxId := by
  rw [replayAdd]
  split
  · dsimp only
    split <;> rfl
  · rfl

theorem replayAdd_sound {manifest : Manifest} (sound : manifest.Sound)
    {entry : SegmentMeta} (named : Named entry)
    (room : entry.segmentId.toNat + 1 < 2 ^ 64) : (replayAdd disk manifest entry).Sound := by
  have succ := toNat_succ room
  rw [replayAdd]
  split
  · dsimp only
    split
    · next reached =>
      rw [ge_iff_le, UInt64.le_iff_toNat_le] at reached
      change manifest.nextSegmentId.toNat ≤ _ at reached
      exact sound.addSegment named (by omega) (by omega)
    · next apart =>
      rw [ge_iff_le, UInt64.le_iff_toNat_le] at apart
      exact sound.addSegment named le_rfl (Nat.lt_of_not_le apart)
  · exact sound

/-- How far a recovery raises the next segment id. -/
structure Raises (disk : Disk Path) (entries : List SegmentMeta) (before after : Nat) : Prop where
  grows : before ≤ after
  covers : ∀ entry ∈ entries, (disk (segmentPath entry.segmentId)).isSome →
    entry.segmentId.toNat < after
  reached : after = before ∨ ∃ entry ∈ entries, after = entry.segmentId.toNat + 1

theorem Raises.trans {first second : List SegmentMeta} {before middle after : Nat}
    (lower : Raises disk first before middle) (upper : Raises disk second middle after) :
    Raises disk (first ++ second) before after where
  grows := lower.grows.trans upper.grows
  covers := by
    intro entry listed present
    rcases List.mem_append.mp listed with early | late
    · exact (lower.covers entry early present).trans_le upper.grows
    · exact upper.covers entry late present
  reached := by
    rcases upper.reached with same | ⟨entry, listed, same⟩
    · rcases lower.reached with still | ⟨entry, listed, still⟩
      · exact .inl (same.trans still)
      · exact .inr ⟨entry, List.mem_append_left _ listed, same.trans still⟩
    · exact .inr ⟨entry, List.mem_append_right _ listed, same⟩

theorem raises_nil (next : Nat) : Raises disk [] next next := ⟨le_rfl, by simp, .inl rfl⟩

theorem replayAdds_raises (disk : Disk Path) {entries : List SegmentMeta}
    (named : ∀ entry ∈ entries, Named entry)
    (room : ∀ entry ∈ entries, entry.segmentId.toNat + 1 < 2 ^ 64) (manifest : Manifest) :
    Raises disk entries manifest.nextSegmentId.toNat
      (entries.foldl (replayAdd disk) manifest).nextSegmentId.toNat := by
  induction entries generalizing manifest with
  | nil => exact raises_nil _
  | cons entry rest ih =>
    have next :=
      replayAdd_nextSegmentId disk (named entry (by simp)) (room entry (by simp)) manifest
    have one : Raises disk [entry] manifest.nextSegmentId.toNat
        (replayAdd disk manifest entry).nextSegmentId.toNat := by
      rw [next]
      split
      · next present =>
        refine ⟨le_max_left _ _, ?_, ?_⟩
        · intro other single _
          rw [List.mem_singleton.mp single]
          omega
        · rcases max_choice manifest.nextSegmentId.toNat (entry.segmentId.toNat + 1) with kept |
            raised
          · exact .inl kept
          · exact .inr ⟨entry, by simp, raised⟩
      · next absent =>
        refine ⟨le_rfl, ?_, .inl rfl⟩
        intro other single present
        rw [List.mem_singleton.mp single] at present
        exact absurd present absent
    exact one.trans (ih (fun other listed => named other (by simp [listed]))
      (fun other listed => room other (by simp [listed])) _)

theorem removeSegments_ids (ids : List UInt64) (manifest : Manifest) :
    (ids.foldl Manifest.removeSegment manifest).nextSegmentId = manifest.nextSegmentId ∧
      (ids.foldl Manifest.removeSegment manifest).nextTxId = manifest.nextTxId := by
  induction ids generalizing manifest with
  | nil => exact ⟨rfl, rfl⟩
  | cons dropped rest ih => exact ih (manifest.removeSegment dropped)

theorem replayAdds_nextTxId (entries : List SegmentMeta) (manifest : Manifest) :
    (entries.foldl (replayAdd disk) manifest).nextTxId = manifest.nextTxId := by
  induction entries generalizing manifest with
  | nil => rfl
  | cons entry rest ih => rw [List.foldl_cons, ih, replayAdd_nextTxId]

theorem replayAdds_sound {entries : List SegmentMeta} (named : ∀ entry ∈ entries, Named entry)
    (room : ∀ entry ∈ entries, entry.segmentId.toNat + 1 < 2 ^ 64) {manifest : Manifest}
    (sound : manifest.Sound) :
    (entries.foldl (replayAdd disk) manifest).Sound := by
  induction entries generalizing manifest with
  | nil => exact sound
  | cons entry rest ih =>
    exact ih (fun other listed => named other (by simp [listed]))
      (fun other listed => room other (by simp [listed]))
      (replayAdd_sound sound (named entry (by simp)) (room entry (by simp)))

/-- The segments added by the committed transactions. -/
def committedAdds (txs : List RecoveredTx) : List SegmentMeta :=
  (txs.filter (·.committed)).flatMap (·.addedSegments)

/-- How far a recovery raises the next transaction id. -/
structure RaisesTx (txs : List RecoveredTx) (before after : Nat) : Prop where
  grows : before ≤ after
  covers : ∀ tx ∈ txs, tx.committed = true → tx.txId.toNat < after
  reached : after = before ∨ ∃ tx ∈ txs, tx.committed = true ∧ after = tx.txId.toNat + 1

/-- One transaction: entries stay sound and the next ids are raised as far as needed. -/
theorem replayTx_raises (disk : Disk Path) {tx : RecoveredTx}
    (named : ∀ entry ∈ tx.addedSegments, Named entry)
    (segmentRoom : ∀ entry ∈ tx.addedSegments, entry.segmentId.toNat + 1 < 2 ^ 64)
    (txRoom : tx.txId.toNat + 1 < 2 ^ 64)
    {manifest : Manifest} (sound : manifest.Sound) :
    (replayTx disk manifest tx).Sound ∧
      Raises disk (committedAdds [tx]) manifest.nextSegmentId.toNat
        (replayTx disk manifest tx).nextSegmentId.toNat ∧
      RaisesTx [tx] manifest.nextTxId.toNat (replayTx disk manifest tx).nextTxId.toNat := by
  cases committed : tx.committed with
  | false =>
    rw [replayTx_uncommitted committed]
    refine ⟨sound, ?_, le_rfl, ?_, .inl rfl⟩
    · simpa [committedAdds, committed] using raises_nil _
    · intro other single also
      rw [List.mem_singleton.mp single, committed] at also
      cases also
  | true =>
    have added : committedAdds [tx] = tx.addedSegments := by simp [committedAdds, committed]
    have body : (replayBody disk manifest tx).Sound :=
      (replayAdds_sound named segmentRoom sound).removeSegments _
    have bodyNext : (replayBody disk manifest tx).nextSegmentId =
        (tx.addedSegments.foldl (replayAdd disk) manifest).nextSegmentId :=
          (removeSegments_ids _ _).1
    have bodyTx : (replayBody disk manifest tx).nextTxId = manifest.nextTxId :=
      (removeSegments_ids _ _).2.trans (replayAdds_nextTxId _ _)
    have raises := replayAdds_raises disk named segmentRoom manifest
    rw [← bodyNext] at raises
    have succ := toNat_succ txRoom
    rw [added, replayTx_committed committed, bodyTx]
    split
    · next reached =>
      rw [ge_iff_le, UInt64.le_iff_toNat_le] at reached
      refine ⟨body.of_ids rfl body.named le_rfl, raises, ?_, ?_, ?_⟩
      · simp only [succ]
        omega
      · intro other single _
        rw [List.mem_singleton.mp single]
        simp only [succ]
        omega
      · exact .inr ⟨tx, by simp, committed, succ⟩
    · next apart =>
      rw [ge_iff_le, UInt64.le_iff_toNat_le] at apart
      refine ⟨body, raises, by rw [bodyTx], ?_, .inl (by rw [bodyTx])⟩
      intro other single _
      rw [List.mem_singleton.mp single, bodyTx]
      omega

theorem replay_raises (disk : Disk Path) {txs : List RecoveredTx}
    (replayable : Replayable txs) {manifest : Manifest}
    (sound : manifest.Sound) :
    (replay disk manifest txs).Sound ∧
      Raises disk (committedAdds txs) manifest.nextSegmentId.toNat
        (replay disk manifest txs).nextSegmentId.toNat ∧
      RaisesTx txs manifest.nextTxId.toNat (replay disk manifest txs).nextTxId.toNat := by
  induction txs generalizing manifest with
  | nil => exact ⟨sound, raises_nil _, le_rfl, by simp, .inl rfl⟩
  | cons tx rest ih =>
    obtain ⟨headSound, headRaises, headTx⟩ := replayTx_raises disk (replayable.named tx (by simp))
      (replayable.segmentRoom tx (by simp)) (replayable.txRoom tx (by simp)) sound
    have others : Replayable rest := ⟨fun other listed => replayable.named other (by simp [listed]),
      fun other listed => replayable.segmentRoom other (by simp [listed]),
      fun other listed => replayable.txRoom other (by simp [listed])⟩
    obtain ⟨restSound, restRaises, restTx⟩ := ih others headSound
    refine ⟨restSound, ?_, headTx.grows.trans restTx.grows, ?_, ?_⟩
    · have split : committedAdds (tx :: rest) = committedAdds [tx] ++ committedAdds rest := by
        rw [committedAdds, committedAdds, committedAdds, ← List.flatMap_append,
          ← List.filter_append, List.singleton_append]
      rw [split]
      exact headRaises.trans restRaises
    · intro other listed committed
      rcases List.mem_cons.mp listed with rfl | later
      · exact (headTx.covers other (by simp) committed).trans_le restTx.grows
      · exact restTx.covers other later committed
    · rcases restTx.reached with same | ⟨other, listed, committed, same⟩
      · rcases headTx.reached with still | ⟨other, single, committed, still⟩
        · exact .inl (same.trans still)
        · exact .inr ⟨other, by simp [List.mem_singleton.mp single], committed, same.trans still⟩
      · exact .inr ⟨other, by simp [listed], committed, same⟩

/-- Whether a segment file opens and validates. -/
def fileValid (found : Option Bytes) : Bool := (segmentValid found).toOption.getD false

theorem fileValid_none : fileValid none = false := rfl

theorem isSome_of_fileValid {found : Option Bytes} (valid : fileValid found = true) :
    found.isSome := by
  cases found with
  | none => cases valid
  | some file => rfl

theorem validateSegment_ok {seg checked : SegmentMeta}
    (validated : validateSegment disk seg = .ok checked) :
    checked = keptIf (fileValid (disk (.root seg.filename))) seg := by
  rw [validateSegment] at validated
  cases active : seg.active with
  | false =>
    rw [active] at validated
    have same : seg = checked := Except.ok.inj validated
    rw [← same, keptIf, active]
    cases seg
    simp_all
  | true =>
    simp only [active, Bool.not_true, Bool.false_eq_true, if_false] at validated
    have off : { seg with active := false } = keptIf false seg := by simp [keptIf]
    cases found : disk (.root seg.filename) with
    | none =>
      simp only [found, Option.isNone_none, if_true] at validated
      rw [fileValid_none, ← off]
      exact (Except.ok.inj validated).symm
    | some file =>
      simp only [found, Option.isNone_some, Bool.false_eq_true, if_false] at validated
      rw [fileValid]
      cases outcome : segmentValid (some file) with
      | error stop =>
        rw [outcome, error_bind] at validated
        cases validated
      | ok valid =>
        rw [outcome, ok_bind] at validated
        cases valid with
        | true => exact (Except.ok.inj validated).symm.trans (keptIf_true seg).symm
        | false => exact (Except.ok.inj validated).symm.trans off

theorem validateSegments_ok {segments checked : List SegmentMeta}
    (validated : validateSegments disk segments = .ok checked) :
    checked = segments.map fun seg => keptIf (fileValid (disk (.root seg.filename))) seg := by
  induction segments generalizing checked with
  | nil => exact (Except.ok.inj validated).symm
  | cons seg rest ih =>
    rw [validateSegments] at validated
    cases first : validateSegment disk seg with
    | error stop =>
      rw [first, error_bind] at validated
      cases validated
    | ok head =>
      rw [first, ok_bind] at validated
      cases others : validateSegments disk rest with
      | error stop =>
        rw [others, error_bind] at validated
        cases validated
      | ok tail =>
        rw [others, ok_bind] at validated
        rw [← Except.ok.inj validated, List.map_cons, validateSegment_ok first, ih others]

theorem entryOf_map_keptIf {segments : List SegmentMeta}
    (kept : SegmentMeta → Bool) (segmentId : UInt64) :
    entryOf (segments.map fun seg => keptIf (kept seg) seg) segmentId =
      (entryOf segments segmentId).map fun seg => keptIf (kept seg) seg := by
  induction segments with
  | nil => rfl
  | cons seg rest ih =>
    rw [List.map_cons, entryOf_cons, entryOf_cons, keptIf_segmentId, ih]
    split <;> rfl

/-- The manifest a recovery starts from: the saved one, or none at all. -/
def SavedManifest (disk : Disk Path) (manifest : Manifest) : Prop :=
  disk manifestPath = some manifest.serialize ∨ (disk manifestPath = none ∧ manifest = {})

/-- The journal a recovery reads: whole records, or no file at all. -/
def SavedJournal (disk : Disk Path) (records : List JournalRecord) : Prop :=
  (∃ creationTs, disk journalPath = some (fileOf creationTs records)) ∨
    (disk journalPath = none ∧ records = [])

theorem recovered_validates {saved : Manifest} {records : List JournalRecord} (sound : saved.Sound)
    (onDisk : SavedManifest disk saved) (journalled : SavedJournal disk records)
    (writable : ∀ record ∈ records, Writable record) :
    recovered disk {} =
      (validateSegments disk (replay disk saved (groupRecords records)).segments).map
        fun segments =>
      { replay disk saved (groupRecords records) with segments } := by
  have start : loadManifest disk {} = saved := by
    rw [loadManifest]
    rcases onDisk with there | ⟨absent, rfl⟩
    · rw [there, sound.load_serialize]
      rfl
    · rw [absent]
      rfl
  have txs : journalTxs disk = .ok (groupRecords records) := by
    rw [journalTxs]
    rcases journalled with ⟨creationTs, there⟩ | ⟨absent, rfl⟩
    · rw [there, readAll_fileOf writable]
      rfl
    · rw [absent]
      rfl
  rw [recovered, txs, ok_bind]
  dsimp only
  rw [start]
  cases validateSegments disk (replay disk saved (groupRecords records)).segments <;> rfl

theorem recovered_eq {saved : Manifest} {records : List JournalRecord} (sound : saved.Sound)
    (onDisk : SavedManifest disk saved) (journalled : SavedJournal disk records)
    (writable : ∀ record ∈ records, Writable record) {manifest : Manifest}
    (result : recovered disk {} = .ok manifest) :
    manifest = { replay disk saved (groupRecords records) with
      segments := (replay disk saved (groupRecords records)).segments.map fun seg =>
        keptIf (fileValid (disk (.root seg.filename))) seg } := by
  rw [recovered_validates sound onDisk journalled writable] at result
  cases validated : validateSegments disk (replay disk saved (groupRecords records)).segments with
  | error stop =>
    rw [validated] at result
    cases result
  | ok segments =>
    rw [validated] at result
    rw [← Except.ok.inj result, validateSegments_ok validated]

theorem validateSegments_returns {segments : List SegmentMeta}
    (answers : ∀ seg ∈ segments, ∃ valid, segmentValid (disk (.root seg.filename)) = .ok valid) :
    ∃ checked, validateSegments disk segments = .ok checked := by
  induction segments with
  | nil => exact ⟨[], rfl⟩
  | cons seg rest ih =>
    obtain ⟨checked, later⟩ := ih fun other listed => answers other (by simp [listed])
    obtain ⟨valid, answer⟩ := answers seg (by simp)
    have first : ∃ one, validateSegment disk seg = .ok one := by
      unfold validateSegment
      dsimp only
      rw [answer]
      split
      · exact ⟨seg, rfl⟩
      · split
        · exact ⟨_, rfl⟩
        · rw [ok_bind]
          cases valid
          · exact ⟨_, rfl⟩
          · exact ⟨_, rfl⟩
    obtain ⟨one, here⟩ := first
    rw [validateSegments, here, later, ok_bind, ok_bind]
    exact ⟨_, rfl⟩

end Catalog

end VectorTick
