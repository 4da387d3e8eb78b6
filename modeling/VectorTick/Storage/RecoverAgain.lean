import VectorTick.Foundation.KeyedLog
import VectorTick.Storage.CatalogEffects

/-! Recovery of a directory that was recovered before.

The journal is never cut, so the second recovery replays all of it over the manifest that the first
one saved. Entries are not undone by that: what the journal says about a segment ends the same way
from every start that it has decided before.
-/

set_option autoImplicit false

namespace VectorTick.Catalog

open Foundation Journal Manifest

/-- Entries under their ids; a removal clears the active flag. -/
def segmentsKeyed : Keyed UInt64 SegmentMeta where
  key := (·.segmentId)
  dimmed entry := { entry with active := false }
  key_dimmed _ := rfl
  dimmed_dimmed _ := rfl

/-- The file of an entry is there. -/
def hasFile (disk : Disk Path) (entry : SegmentMeta) : Bool := (disk (.root entry.filename)).isSome

/-- The additions of a transaction that count. -/
def presentAdds (disk : Disk Path) (tx : RecoveredTx) : List SegmentMeta :=
  tx.addedSegments.filter (hasFile disk)

def txLog (disk : Disk Path) (tx : RecoveredTx) : List (LogAction UInt64 SegmentMeta) :=
  (presentAdds disk tx).map .put ++ tx.removedSegments.map .dim

def journalLog (disk : Disk Path) (txs : List RecoveredTx) : List (LogAction UInt64 SegmentMeta) :=
  (txs.filter (·.committed)).flatMap (txLog disk)

theorem play_put (entry : SegmentMeta) (segments : List SegmentMeta) :
    segmentsKeyed.play segments (.put entry) = putSegment entry segments := by
  induction segments with
  | nil => rfl
  | cons seg rest ih =>
    rw [Keyed.play, putSegment, ih]
    rfl

theorem play_dim (segmentId : UInt64) (segments : List SegmentMeta) :
    segmentsKeyed.play segments (.dim segmentId) = dropSegment segmentId segments := by
  induction segments with
  | nil => rfl
  | cons seg rest ih =>
    rw [Keyed.play, dropSegment, ih]
    rfl

section Replay

variable (disk : Disk Path)

theorem playAll_adds (entries : List SegmentMeta) (manifest : Manifest) :
    (entries.foldl (replayAdd disk) manifest).segments =
      segmentsKeyed.playAll manifest.segments ((entries.filter (hasFile disk)).map .put) := by
  induction entries generalizing manifest with
  | nil => rfl
  | cons entry rest ih =>
    rw [List.foldl_cons, ih, replayAdd_segments, ← hasFile]
    by_cases present : hasFile disk entry
    · rw [if_pos present, List.filter_cons_of_pos present, List.map_cons,
        Keyed.playAll_step, play_put]
    · rw [if_neg present, List.filter_cons_of_neg present]

theorem playAll_removals (ids : List UInt64) (manifest : Manifest) :
    (ids.foldl Manifest.removeSegment manifest).segments =
      segmentsKeyed.playAll manifest.segments (ids.map .dim) := by
  induction ids generalizing manifest with
  | nil => rfl
  | cons segmentId rest ih =>
    rw [List.foldl_cons, ih, List.map_cons, Keyed.playAll_step, play_dim]
    rfl

theorem replay_segments (txs : List RecoveredTx) (manifest : Manifest) :
    (replay disk manifest txs).segments =
      segmentsKeyed.playAll manifest.segments (journalLog disk txs) := by
  induction txs generalizing manifest with
  | nil => rfl
  | cons tx rest ih =>
    rw [replay, List.foldl_cons, ← replay, ih, journalLog, journalLog]
    cases committed : tx.committed with
    | false => rw [replayTx_uncommitted committed, List.filter_cons_of_neg (by simp [committed])]
    | true =>
      rw [replayTx_segments committed, replayBody, playAll_removals, playAll_adds,
        List.filter_cons_of_pos committed, List.flatMap_cons, Keyed.playAll_append, txLog,
        Keyed.playAll_append]
      rfl

end Replay

/-- The next id after one that is in use. -/
def raise (next id : UInt64) : UInt64 := if id ≥ next then id + 1 else next

theorem raise_below {next : UInt64} {ids : List UInt64} (below : ∀ id ∈ ids, id < next) :
    ids.foldl raise next = next := by
  induction ids with
  | nil => rfl
  | cons id rest ih =>
    have first : ¬ id ≥ next := UInt64.not_le.mpr (below id List.mem_cons_self)
    rw [List.foldl_cons, raise, if_neg first]
    exact ih fun other listed => below other (List.mem_cons_of_mem _ listed)

theorem raise_above {next : UInt64} {ids : List UInt64} (room : ∀ id ∈ ids, id.toNat + 1 < 2 ^ 64) :
    next ≤ ids.foldl raise next ∧ ∀ id ∈ ids, id < ids.foldl raise next := by
  induction ids generalizing next with
  | nil => exact ⟨UInt64.le_refl _, fun id listed => by cases listed⟩
  | cons id rest ih =>
    obtain ⟨grows, others⟩ :=
      @ih (raise next id) fun other listed => room other (List.mem_cons_of_mem _ listed)
    have step : next ≤ raise next id ∧ id < raise next id := by
      have succ := toNat_succ (room id List.mem_cons_self)
      rw [raise]
      simp only [UInt64.le_iff_toNat_le, UInt64.lt_iff_toNat_lt, ge_iff_le]
      split
      · omega
      · omega
    rw [List.foldl_cons]
    exact ⟨UInt64.le_trans step.1 grows,
      List.forall_mem_cons.mpr ⟨UInt64.lt_of_lt_of_le step.2 grows, others⟩⟩

theorem raise_again (next : UInt64) (ids : List UInt64) :
    ids.foldl raise (ids.foldl raise next) = ids.foldl raise next := by
  by_cases room : ∀ id ∈ ids, id.toNat + 1 < 2 ^ 64
  · exact raise_below (raise_above room).2
  · push Not at room
    obtain ⟨id, listed, last⟩ := room
    obtain ⟨before, behind, whole⟩ := List.append_of_mem listed
    have top (start : UInt64) : raise start id = id + 1 := by
      have bound := start.toNat_lt
      refine if_pos ?_
      rw [ge_iff_le, UInt64.le_iff_toNat_le]
      omega
    simp only [whole, List.foldl_append, List.foldl_cons, top]

theorem replayAdds_raise (disk : Disk Path) (entries : List SegmentMeta) (manifest : Manifest) :
    (entries.foldl (replayAdd disk) manifest).nextSegmentId =
      ((entries.filter (hasFile disk)).map (·.segmentId)).foldl raise manifest.nextSegmentId := by
  induction entries generalizing manifest with
  | nil => rfl
  | cons entry rest ih =>
    rw [List.foldl_cons, ih, replayAdd, ← hasFile]
    by_cases present : hasFile disk entry
    · have next : ((if entry.segmentId ≥ (manifest.addSegment entry).nextSegmentId then
          { manifest.addSegment entry with nextSegmentId := entry.segmentId + 1 }
            else manifest.addSegment entry :
            Manifest)).nextSegmentId = raise manifest.nextSegmentId entry.segmentId := by
        by_cases reached : entry.segmentId ≥ manifest.nextSegmentId
        · rw [raise, if_pos reached,
            if_pos (show entry.segmentId ≥ (manifest.addSegment entry).nextSegmentId from reached)]
        · rw [raise, if_neg reached,
            if_neg (show ¬ entry.segmentId ≥
              (manifest.addSegment entry).nextSegmentId from reached)]
          rfl
      rw [if_pos present, List.filter_cons_of_pos present, List.map_cons, List.foldl_cons, ← next]
    · rw [if_neg present, List.filter_cons_of_neg present]

theorem replay_nextSegmentId (disk : Disk Path) (txs : List RecoveredTx) (manifest : Manifest) :
    (replay disk manifest txs).nextSegmentId =
      ((committedAdds txs).filter (hasFile disk) |>.map (·.segmentId)).foldl raise
        manifest.nextSegmentId := by
  induction txs generalizing manifest with
  | nil => rfl
  | cons tx rest ih =>
    rw [replay, List.foldl_cons, ← replay, ih, committedAdds, committedAdds]
    cases committed : tx.committed with
    | false => rw [replayTx_uncommitted committed, List.filter_cons_of_neg (by simp [committed])]
    | true =>
      have body : (replayTx disk manifest tx).nextSegmentId =
          (tx.addedSegments.foldl (replayAdd disk) manifest).nextSegmentId := by
        rw [replayTx_committed committed]
        split <;> exact (removeSegments_ids _ _).1
      rw [body, replayAdds_raise, List.filter_cons_of_pos committed, List.flatMap_cons,
        List.filter_append, List.map_append, List.foldl_append]

theorem replay_nextTxId (disk : Disk Path) (txs : List RecoveredTx) (manifest : Manifest) :
    (replay disk manifest txs).nextTxId =
      ((txs.filter (·.committed)).map (·.txId)).foldl raise manifest.nextTxId := by
  induction txs generalizing manifest with
  | nil => rfl
  | cons tx rest ih =>
    rw [replay, List.foldl_cons, ← replay, ih]
    cases committed : tx.committed with
    | false => rw [replayTx_uncommitted committed, List.filter_cons_of_neg (by simp [committed])]
    | true =>
      have body : (replayBody disk manifest tx).nextTxId = manifest.nextTxId :=
        (removeSegments_ids _ _).2.trans (replayAdds_nextTxId _ _)
      have one : (replayTx disk manifest tx).nextTxId = raise manifest.nextTxId tx.txId := by
        rw [replayTx_committed committed, body, raise]
        split
        · rfl
        · exact body
      rw [one, List.filter_cons_of_pos committed, List.map_cons, List.foldl_cons]

theorem removeSegments_version (ids : List UInt64) (manifest : Manifest) :
    (ids.foldl Manifest.removeSegment manifest).version = manifest.version := by
  induction ids generalizing manifest with
  | nil => rfl
  | cons segmentId rest ih => exact ih (manifest.removeSegment segmentId)

theorem replay_version (disk : Disk Path) (txs : List RecoveredTx) (manifest : Manifest) :
    (replay disk manifest txs).version = manifest.version := by
  have adds (entries : List SegmentMeta) (manifest : Manifest) :
      (entries.foldl (replayAdd disk) manifest).version = manifest.version := by
    induction entries generalizing manifest with
    | nil => rfl
    | cons entry rest ih =>
      rw [List.foldl_cons, ih, replayAdd]
      split
      · dsimp only
        split <;> rfl
      · rfl
  induction txs generalizing manifest with
  | nil => rfl
  | cons tx rest ih =>
    rw [replay, List.foldl_cons, ← replay, ih]
    cases committed : tx.committed with
    | false => rw [replayTx_uncommitted committed]
    | true =>
      have body : (replayBody disk manifest tx).version = manifest.version :=
        (removeSegments_version _ _).trans (adds _ _)
      rw [replayTx_committed committed]
      split
      · exact body
      · exact body

/-- What validation makes of an entry. -/
def checkedEntry (disk : Disk Path) (seg : SegmentMeta) : SegmentMeta :=
  keptIf (fileValid (disk (.root seg.filename))) seg

theorem checkedEntry_checkedEntry (disk : Disk Path) (seg : SegmentMeta) :
    checkedEntry disk (checkedEntry disk seg) = checkedEntry disk seg := by
  rw [checkedEntry, checkedEntry, keptIf_filename, keptIf_keptIf, Bool.and_self]

theorem checked_replay_again (disk : Disk Path) (segments : List SegmentMeta)
    (log : List (LogAction UInt64 SegmentMeta)) :
    (segmentsKeyed.playAll ((segmentsKeyed.playAll segments log).map (checkedEntry disk)) log).map
      (checkedEntry disk) =
      (segmentsKeyed.playAll segments log).map (checkedEntry disk) :=
  @Keyed.map_playAll_again _ _ segmentsKeyed _ (checkedEntry disk) (fun _ => rfl) (fun _ => rfl)
    (checkedEntry_checkedEntry disk) segments log

theorem darker_checked (disk : Disk Path) (segments : List SegmentMeta) :
    segmentsKeyed.Darker (segments.map (checkedEntry disk)) segments := by
  refine List.forall₂_map_left_iff.mpr (List.forall₂_same.mpr fun seg _ => ?_)
  rw [checkedEntry, keptIf]
  cases fileValid (disk (.root seg.filename))
  · exact .inr (by rw [Bool.and_false]; rfl)
  · exact .inl (by rw [Bool.and_true])

theorem validateSegments_darker {disk : Disk Path} {darker segments checked : List SegmentMeta}
    (dark : segmentsKeyed.Darker darker segments)
    (validated : validateSegments disk segments = .ok checked) :
    validateSegments disk darker = .ok (darker.map (checkedEntry disk)) := by
  suffices through : ∃ others, validateSegments disk darker = .ok others by
    obtain ⟨others, result⟩ := through
    rw [result, validateSegments_ok result]
    rfl
  induction dark generalizing checked with
  | nil => exact ⟨[], rfl⟩
  | @cons seg other rest others head tail ih =>
    rw [validateSegments] at validated
    cases first : validateSegment disk other with
    | error stop =>
      rw [first, error_bind] at validated
      cases validated
    | ok one =>
      rw [first, ok_bind] at validated
      cases behind : validateSegments disk others with
      | error stop =>
        rw [behind, error_bind] at validated
        cases validated
      | ok more =>
        obtain ⟨remaining, later⟩ := ih behind
        have here : ∃ result, validateSegment disk seg = .ok result := by
          rcases head with rfl | rfl
          · exact ⟨one, first⟩
          · exact ⟨_, rfl⟩
        obtain ⟨result, here⟩ := here
        rw [validateSegments, here, later, ok_bind, ok_bind]
        exact ⟨_, rfl⟩

/-- A manifest with its entries validated. -/
def checkedManifest (disk : Disk Path) (manifest : Manifest) : Manifest :=
  { manifest with segments := manifest.segments.map (checkedEntry disk) }

theorem checkedManifest_again (disk : Disk Path) (txs : List RecoveredTx) (start : Manifest) :
    checkedManifest disk (replay disk (checkedManifest disk (replay disk start txs)) txs) =
      checkedManifest disk (replay disk start txs) := by
  have segments : ((replay disk (checkedManifest disk (replay disk start txs)) txs).segments).map
      (checkedEntry disk) =
      (replay disk start txs).segments.map (checkedEntry disk) := by
    rw [replay_segments, checkedManifest, replay_segments, checked_replay_again]
  have version : (replay disk (checkedManifest disk (replay disk start txs)) txs).version =
      (replay disk start txs).version := replay_version disk txs _
  have nextSegment : (replay disk
      (checkedManifest disk (replay disk start txs)) txs).nextSegmentId =
      (replay disk start txs).nextSegmentId := by
    rw [replay_nextSegmentId, checkedManifest, replay_nextSegmentId, raise_again]
  have nextTx : (replay disk (checkedManifest disk (replay disk start txs)) txs).nextTxId =
      (replay disk start txs).nextTxId := by
    rw [replay_nextTxId, checkedManifest, replay_nextTxId, raise_again]
  rw [checkedManifest, segments, version, nextSegment, nextTx, checkedManifest]

theorem validateSegments_again {disk : Disk Path} {txs : List RecoveredTx} {start : Manifest}
    {checked : List SegmentMeta}
    (validated : validateSegments disk (replay disk start txs).segments = .ok checked) :
    validateSegments disk
      (replay disk (checkedManifest disk (replay disk start txs)) txs).segments =
      .ok ((replay disk (checkedManifest disk (replay disk start txs)) txs).segments.map
        (checkedEntry disk)) := by
  have dark := (darker_checked disk (replay disk start txs).segments).playAll (journalLog disk txs)
  have settled : segmentsKeyed.playAll (replay disk start txs).segments (journalLog disk txs) =
      (replay disk start txs).segments := by
    rw [replay_segments, Keyed.playAll_again]
  rw [settled] at dark
  rw [replay_segments disk txs (checkedManifest disk (replay disk start txs))]
  exact validateSegments_darker dark validated

section Agree

variable {disk other : Disk Path}

theorem replay_congr {txs : List RecoveredTx}
    (same : ∀ tx ∈ txs, ∀ entry ∈ tx.addedSegments, other (.root entry.filename) =
      disk (.root entry.filename))
    (manifest : Manifest) : replay other manifest txs = replay disk manifest txs := by
  refine List.foldl_ext _ _ _ fun manifest tx listed => ?_
  have adds : tx.addedSegments.foldl (replayAdd other) manifest =
      tx.addedSegments.foldl (replayAdd disk) manifest :=
    List.foldl_ext _ _ _ fun manifest entry added => by rw [replayAdd, replayAdd,
      same tx listed entry added]
  rw [replayTx, replayTx, adds]

theorem validateSegments_congr {segments : List SegmentMeta}
    (same : ∀ seg ∈ segments, other (.root seg.filename) = disk (.root seg.filename)) :
    validateSegments other segments = validateSegments disk segments := by
  induction segments with
  | nil => rfl
  | cons seg rest ih =>
    obtain ⟨head, tail⟩ := List.forall_mem_cons.mp same
    rw [validateSegments, validateSegments, ih tail, validateSegment, validateSegment, head]

end Agree

/-- The name is a segment's. -/
def OfSegment (entry : SegmentMeta) : Prop := ∃ segmentId, entry.filename = segmentName segmentId

/-- Every name that the manifest or a record of the journal gives to a segment is a segment's. -/
structure SegmentNames (disk : Disk Path) : Prop where
  manifest : ∀ entry ∈ (loadManifest disk {}).segments, OfSegment entry
  journal : ∀ txs, journalTxs disk = .ok txs →
    ∀ tx ∈ txs, ∀ entry ∈ tx.addedSegments, OfSegment entry

/-- A recovery by a fresh catalog, when file operations succeed. -/
def freshRecovery (disk : Disk Path) : Prog.Run Path Catalog Stop Unit := recover.exec [] disk {}

/-- What a recovery leaves on disk: no temporary files, and the manifest it has computed. -/
def resaved (disk : Disk Path) (manifest : Manifest) : Disk Path :=
  Function.update (swept disk) manifestPath (some manifest.serialize)

section Twice

variable {disk : Disk Path} {manifest : Manifest}

theorem swept_temporary {path : Path} (temporary : isTemporary path = true) (disk : Disk Path) :
    swept disk path = none := by
  simp [swept, Effect.apply, temporary]

theorem resaved_eq (disk : Disk Path) (manifest : Manifest) :
    applyAll disk (done (.sweep isTemporary :: saveEffects manifest)) = resaved disk manifest := by
  change applyAll (swept disk) (done (saveEffects manifest)) = _
  funext path
  by_cases saved : path = manifestPath
  · rw [saved, save_manifest, resaved, Function.update_self]
  · rw [resaved, Function.update_of_ne saved]
    by_cases beside : path = manifestTmpPath
    · rw [beside, swept_temporary (by decide)]
      simp only [saveEffects, done, List.map_cons, List.map_nil, applyAll_cons, applyAll_nil,
        Effect.after_done, Effect.apply, Function.update_self]
      rw [Function.update_of_ne (by decide), Function.update_self]
    · rw [save_frame beside saved]

theorem swept_resaved (disk : Disk Path) (manifest : Manifest) :
    swept (resaved disk manifest) = resaved disk manifest := by
  funext path
  by_cases temporary : isTemporary path = true
  · have apart : path ≠ manifestPath := (foreign_of_isTemporary temporary).manifest
    rw [swept_temporary temporary, resaved, Function.update_of_ne apart, swept_temporary temporary]
  · rw [swept_of_not (by simpa using temporary)]

theorem resaved_segment {entry : SegmentMeta} (named : OfSegment entry)
    (disk : Disk Path) (manifest : Manifest) :
    resaved disk manifest (.root entry.filename) = swept disk (.root entry.filename) := by
  obtain ⟨segmentId, named⟩ := named
  rw [named, ← segmentPath, resaved, Function.update_of_ne (segmentPath_ne_manifest segmentId)]

theorem freshRecovery_ok (succeeded : (freshRecovery disk).outcome = .ok ()) :
    ∃ manifest, recovered (swept disk) {} = .ok manifest ∧
      (freshRecovery disk).disk = resaved disk manifest ∧
      (freshRecovery disk).state = { manifest } := by
  cases result : recovered (swept disk) {} with
  | error stop =>
    rw [freshRecovery, recover_stops {} result] at succeeded
    cases succeeded
  | ok manifest =>
    rw [freshRecovery, recover_exec {} result]
    exact ⟨manifest, rfl, resaved_eq disk manifest, rfl⟩

theorem loadManifest_swept (disk : Disk Path) :
    loadManifest (swept disk) {} = loadManifest disk {} := by
  rw [loadManifest, loadManifest, swept_of_not (show isTemporary manifestPath = false by decide)]

theorem journalTxs_congr {other : Disk Path} (same : other journalPath = disk journalPath) :
    journalTxs other = journalTxs disk := by
  rw [journalTxs, journalTxs, same]

theorem recovered_parts (result : recovered disk {} = .ok manifest) :
    ∃ txs segments, journalTxs disk = .ok txs ∧
      validateSegments disk (replay disk (loadManifest disk {}) txs).segments = .ok segments ∧
      manifest = { replay disk (loadManifest disk {}) txs with segments } := by
  rw [recovered] at result
  cases journalled : journalTxs disk with
  | error stop =>
    rw [journalled, error_bind] at result
    cases result
  | ok txs =>
    rw [journalled, ok_bind] at result
    cases validated : validateSegments disk (replay disk (loadManifest disk {}) txs).segments with
    | error stop =>
      dsimp only at result
      rw [validated, error_bind] at result
      cases result
    | ok segments =>
      dsimp only at result
      rw [validated, ok_bind] at result
      exact ⟨txs, segments, rfl, validated, (Except.ok.inj result).symm⟩

theorem journalLog_puts {txs : List RecoveredTx} {entry : SegmentMeta}
    (logged : .put entry ∈ journalLog disk txs) :
    ∃ tx ∈ txs, entry ∈ tx.addedSegments := by
  obtain ⟨tx, listed, among⟩ := List.mem_flatMap.mp logged
  rw [txLog, List.mem_append, List.mem_map, List.mem_map] at among
  rcases among with ⟨added, present, same⟩ | ⟨_, _, same⟩
  · rw [← LogAction.put.inj same]
    exact ⟨tx, List.mem_of_mem_filter listed, List.mem_of_mem_filter present⟩
  · cases same

theorem replay_named {txs : List RecoveredTx} (start : ∀ entry ∈ manifest.segments, OfSegment entry)
    (added : ∀ tx ∈ txs, ∀ entry ∈ tx.addedSegments, OfSegment entry) :
    ∀ entry ∈ (replay disk manifest txs).segments, OfSegment entry := by
  rw [replay_segments]
  refine segmentsKeyed.playAll_forall (fun entry named => named) start fun entry logged => ?_
  obtain ⟨tx, listed, among⟩ := journalLog_puts logged
  exact added tx listed entry among

theorem shortNames_of_segments {segments : List SegmentMeta}
    (named : ∀ entry ∈ segments, OfSegment entry) :
    ShortNames segments := by
  intro entry listed
  obtain ⟨segmentId, same⟩ := named entry listed
  have bounded := length_segmentName segmentId
  rw [same]
  omega

theorem recovered_resaved (named : SegmentNames disk)
    (result : recovered (swept disk) {} = .ok manifest)
    (few : manifest.segments.length < 2 ^ 64) :
    recovered (resaved disk manifest) {} = .ok manifest := by
  obtain ⟨txs, segments, journalled, validated, same⟩ := recovered_parts result
  have checked : manifest = checkedManifest (swept disk)
      (replay (swept disk) (loadManifest (swept disk) {}) txs) := by
    rw [same, validateSegments_ok validated]
    rfl
  have added : ∀ tx ∈ txs, ∀ entry ∈ tx.addedSegments, OfSegment entry := by
    refine named.journal txs ?_
    rw [← journalled]
    exact journalTxs_congr (swept_of_not (by decide) disk).symm
  have firstNames : ∀ entry ∈ manifest.segments, OfSegment entry := by
    rw [checked]
    refine List.forall_mem_map.mpr fun entry listed => ?_
    exact replay_named (loadManifest_swept disk ▸ named.manifest) added entry listed
  have loaded : loadManifest (resaved disk manifest) {} = manifest := by
    rw [loadManifest, resaved, Function.update_self,
      load_serialize {} manifest (shortNames_of_segments firstNames) few]
    rfl
  have journal : journalTxs (resaved disk manifest) = .ok txs := by
    rw [← journalled]
    exact journalTxs_congr (Function.update_of_ne manifest_ne_journal.symm _ _)
  have replayed : replay (resaved disk manifest) manifest txs = replay (swept disk) manifest txs :=
    replay_congr (fun tx listed entry among =>
      resaved_segment (added tx listed entry among) disk manifest) manifest
  have files : validateSegments (resaved disk manifest)
      (replay (swept disk) manifest txs).segments =
      validateSegments (swept disk) (replay (swept disk) manifest txs).segments :=
    validateSegments_congr fun seg listed =>
      resaved_segment (replay_named firstNames added seg listed) disk manifest
  have again := validateSegments_again validated
  rw [← checked] at again
  rw [recovered, journal, ok_bind]
  dsimp only
  rw [loaded, replayed, files, again, ok_bind]
  conv_rhs => rw [checked, ← checkedManifest_again, ← checked]
  rfl

end Twice

/-- A recovery that succeeds can be done again: the second one succeeds with the same manifest and
leaves the same files. A vector holds fewer than 2^64 segments. -/
theorem recover_twice {disk : Disk Path} (named : SegmentNames disk)
    (succeeded : (freshRecovery disk).outcome = .ok ())
    (few : (freshRecovery disk).state.manifest.segments.length < 2 ^ 64) :
    (freshRecovery (freshRecovery disk).disk).outcome = .ok () ∧
      (freshRecovery (freshRecovery disk).disk).state.manifest =
        (freshRecovery disk).state.manifest ∧
      (freshRecovery (freshRecovery disk).disk).disk = (freshRecovery disk).disk := by
  obtain ⟨manifest, result, left, state⟩ := freshRecovery_ok succeeded
  rw [state] at few
  have again := recovered_resaved named result few
  rw [← swept_resaved] at again
  have second : freshRecovery (resaved disk manifest) = _ := recover_exec {} again
  rw [left, state, second]
  refine ⟨rfl, rfl, ?_⟩
  rw [resaved_eq, resaved, swept_resaved, resaved, Function.update_idem]

/-- A manifest whose segment has no file. -/
def wornManifest : Manifest :=
  { nextSegmentId := 2, segments := [{ segmentId := 1, filename := segmentName 1 }] }

/-- A transaction that removes it, adds one whose file is empty and one without a file. -/
def wornRecords : List JournalRecord :=
  [⟨7, .txBegin⟩, ⟨7, .compactSegments [1] [{ segmentId := 3, filename := segmentName 3 }]⟩,
    ⟨7, .addSegment { segmentId := 4, filename := segmentName 4 }⟩, ⟨7, .txCommit⟩]

/-- A directory with these, the empty file and a leftover. -/
def worn : Disk Path := fun path =>
  if path = manifestPath then some wornManifest.serialize
  else if path = journalPath then some (fileOf 0 wornRecords)
  else if path = segmentPath 3 ∨ path = compactTmpPath 5 then some []
  else none

def wornRecovered : Manifest where
  nextSegmentId := 4
  nextTxId := 8
  segments := [{ segmentId := 1, filename := segmentName 1, active := false },
    { segmentId := 3, filename := segmentName 3, active := false }]

theorem worn_loaded : loadManifest worn {} = wornManifest := by
  have found : worn manifestPath = some wornManifest.serialize := rfl
  have short : ShortNames wornManifest.segments := List.forall_mem_singleton.mpr (by decide)
  rw [loadManifest, found, load_serialize {} wornManifest short (by decide)]
  rfl

theorem worn_journal : journalTxs worn = .ok (groupRecords wornRecords) := by
  have found : worn journalPath = some (fileOf 0 wornRecords) := rfl
  have writable : ∀ record ∈ wornRecords, Writable record := by
    unfold Writable
    decide
  rw [journalTxs, found, readAll_fileOf writable]
  rfl

theorem worn_recovered : recovered (swept worn) {} = .ok wornRecovered := by
  rw [recovered, journalTxs_congr (swept_of_not (by decide) worn), worn_journal, ok_bind,
    loadManifest_swept, worn_loaded]
  decide

theorem recover_twice_worn :
    (freshRecovery worn).state.manifest = wornRecovered ∧
      (freshRecovery (freshRecovery worn).disk).outcome = .ok () ∧
      (freshRecovery (freshRecovery worn).disk).state.manifest =
        (freshRecovery worn).state.manifest ∧
      (freshRecovery (freshRecovery worn).disk).disk = (freshRecovery worn).disk := by
  have first : freshRecovery worn = _ := recover_exec {} worn_recovered
  have state : (freshRecovery worn).state.manifest = wornRecovered := by rw [first]
  refine ⟨state, recover_twice ⟨?_, ?_⟩ (by rw [first]) (by rw [state]; decide)⟩
  · rw [worn_loaded]
    exact List.forall_mem_singleton.mpr ⟨1, rfl⟩
  · intro txs found
    rw [worn_journal] at found
    rw [← Except.ok.inj found]
    have grouped : groupRecords wornRecords = [{
        txId := 7, committed := true, removedSegments := [1]
        addedSegments := [{ segmentId := 3, filename := segmentName 3 },
          { segmentId := 4, filename := segmentName 4 }] }] := by
      decide
    rw [grouped]
    refine List.forall_mem_singleton.mpr (List.forall_mem_cons.mpr ⟨⟨3, rfl⟩, ?_⟩)
    exact List.forall_mem_singleton.mpr ⟨4, rfl⟩

end VectorTick.Catalog
