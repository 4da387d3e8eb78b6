import VectorTick.Storage.Replay

/-! The journal as the history of the attempts that wrote it.

An attempt is a commit or a compaction that appended at least one record. A segment file belongs
to the last committed attempt that added its id, and whether the segment is active after a
recovery depends on that attempt and on the removals behind it.
-/

set_option autoImplicit false

namespace VectorTick

open Foundation Journal Catalog Manifest

/-- How many of its three records an attempt got to write. -/
inductive Stage where
  | begun
  | logged
  | committed
  deriving DecidableEq, Repr

structure Attempt where
  txId : UInt64
  op : JournalOp
  entry : SegmentMeta
  stage : Stage
  adds_op : adds op = [entry]
  named : Named entry
  active : entry.active = true

namespace Attempt

def ops (attempt : Attempt) : List JournalOp :=
  match attempt.stage with
  | .begun => [.txBegin]
  | .logged => [.txBegin, attempt.op]
  | .committed => [.txBegin, attempt.op, .txCommit]

def records (attempt : Attempt) : List JournalRecord :=
  attempt.ops.map (JournalRecord.mk attempt.txId)

/-- The ids whose removal the attempt has journalled. -/
def removed (attempt : Attempt) : List UInt64 :=
  match attempt.stage with
  | .begun => []
  | _ => removes attempt.op

def added (attempt : Attempt) : List SegmentMeta :=
  match attempt.stage with
  | .begun => []
  | _ => [attempt.entry]

end Attempt

def recordsOf (history : List Attempt) : List JournalRecord := history.flatMap Attempt.records

/-- Transaction ids never go down, and go up behind a committed attempt. -/
def Ordered (history : List Attempt) : Prop :=
  history.Pairwise fun first second =>
    first.txId.toNat ≤ second.txId.toNat ∧
      (first.stage = .committed → first.txId.toNat < second.txId.toNat)

section Records

variable {history : List Attempt}

theorem txId_of_mem_records {attempt : Attempt} {record : JournalRecord}
    (listed : record ∈ attempt.records) :
    record.txId = attempt.txId := by
  obtain ⟨op, _, rfl⟩ := List.mem_map.mp listed
  rfl

theorem records_ne_nil (attempt : Attempt) : attempt.records ≠ [] := by
  rw [Attempt.records, Attempt.ops]
  cases attempt.stage <;> simp

theorem mem_recordsOf_txId (txId : UInt64) :
    (∃ record ∈ recordsOf history, record.txId = txId) ↔
      ∃ attempt ∈ history, attempt.txId = txId := by
  constructor
  · rintro ⟨record, listed, rfl⟩
    obtain ⟨attempt, found, inside⟩ := List.mem_flatMap.mp listed
    exact ⟨attempt, found, (txId_of_mem_records inside).symm⟩
  · rintro ⟨attempt, found, rfl⟩
    obtain ⟨record, inside⟩ := List.exists_mem_of_ne_nil _ (records_ne_nil attempt)
    exact ⟨record, List.mem_flatMap.mpr ⟨attempt, found, inside⟩, txId_of_mem_records inside⟩

theorem filter_recordsOf (history : List Attempt) (txId : UInt64) :
    (recordsOf history).filter (fun record => record.txId = txId) =
      recordsOf (history.filter fun attempt => attempt.txId = txId) := by
  induction history with
  | nil => rfl
  | cons attempt rest ih =>
    rw [recordsOf, List.flatMap_cons, List.filter_append, ← recordsOf, ih, List.filter_cons]
    by_cases same : attempt.txId = txId
    · rw [if_pos (by simpa using same), recordsOf, recordsOf, List.flatMap_cons]
      congr 1
      rw [List.filter_eq_self]
      intro record listed
      simpa [txId_of_mem_records listed] using same
    · rw [if_neg (by simpa using same)]
      rw [List.filter_eq_nil_iff.mpr, List.nil_append]
      intro record listed
      simpa [txId_of_mem_records listed] using same

theorem adds_records (attempt : Attempt) :
    attempt.records.flatMap (fun record => adds record.op) = attempt.added := by
  have same := attempt.adds_op
  rw [Attempt.records, Attempt.ops, Attempt.added]
  cases attempt.stage <;> simp [adds] at same ⊢ <;> exact same

theorem removes_records (attempt : Attempt) :
    attempt.records.flatMap (fun record => removes record.op) = attempt.removed := by
  rw [Attempt.records, Attempt.ops, Attempt.removed]
  cases attempt.stage <;> simp [removes]

theorem summary_recordsOf (history : List Attempt) (txId : UInt64) :
    (summary txId (recordsOf history)).addedSegments =
        (history.filter fun attempt => attempt.txId = txId).flatMap Attempt.added ∧
      (summary txId (recordsOf history)).removedSegments =
        (history.filter fun attempt => attempt.txId = txId).flatMap Attempt.removed := by
  have parts :=
    foldl_effectOf_parts (recordsOf (history.filter fun attempt => attempt.txId = txId)) { txId }
  rw [summary, filter_recordsOf, parts.1, parts.2, recordsOf, List.flatMap_assoc,
    List.flatMap_assoc, List.nil_append, List.nil_append]
  exact ⟨List.flatMap_congr fun attempt _ => adds_records attempt,
    List.flatMap_congr fun attempt _ => removes_records attempt⟩

theorem mem_ops {attempt : Attempt} {op : JournalOp} :
    op ∈ attempt.ops ↔ op = .txBegin ∨ (op = attempt.op ∧ attempt.stage ≠ .begun) ∨
      (op = .txCommit ∧ attempt.stage = .committed) := by
  rw [Attempt.ops]
  cases attempt.stage <;> simp

theorem op_ne {attempt : Attempt} : attempt.op ≠ .txAbort ∧ attempt.op ≠ .txCommit := by
  have same := attempt.adds_op
  constructor <;> intro equal <;> rw [equal] at same <;> cases same

theorem summary_committed (history : List Attempt) (txId : UInt64) :
    (summary txId (recordsOf history)).committed = true ↔
      ∃ attempt ∈ history, attempt.txId = txId ∧ attempt.stage = .committed := by
  have noAbort : ∀ record ∈ recordsOf (history.filter fun attempt => attempt.txId = txId),
      record.op ≠ .txAbort := by
    intro record listed
    obtain ⟨attempt, _, inside⟩ := List.mem_flatMap.mp listed
    obtain ⟨op, among, rfl⟩ := List.mem_map.mp inside
    rcases mem_ops.mp among with rfl | ⟨rfl, _⟩ | ⟨rfl, _⟩
    · simp
    · exact op_ne.1
    · simp
  rw [summary, filter_recordsOf, foldl_effectOf_committed _ noAbort,
    Bool.false_or, List.any_eq_true]
  constructor
  · rintro ⟨record, listed, isCommit⟩
    obtain ⟨attempt, found, inside⟩ := List.mem_flatMap.mp listed
    obtain ⟨op, among, rfl⟩ := List.mem_map.mp inside
    rw [List.mem_filter, decide_eq_true_eq] at found
    rw [decide_eq_true_eq] at isCommit
    rcases mem_ops.mp among with rfl | ⟨rfl, _⟩ | ⟨_, committed⟩
    · cases isCommit
    · exact absurd isCommit op_ne.2
    · exact ⟨attempt, found.1, found.2, committed⟩
  · rintro ⟨attempt, found, same, committed⟩
    refine ⟨⟨attempt.txId, .txCommit⟩, List.mem_flatMap.mpr ⟨attempt, ?_, ?_⟩, by simp⟩
    · rw [List.mem_filter, decide_eq_true_eq]
      exact ⟨found, same⟩
    · exact List.mem_map_of_mem (mem_ops.mpr (.inr (.inr ⟨rfl, committed⟩)))

theorem txOrder_sorted {records : List JournalRecord}
    (sorted : records.Pairwise fun first second => first.txId.toNat ≤ second.txId.toNat) :
    (txOrder records).Pairwise fun first second => first.toNat < second.toNat := by
  induction records using List.reverseRecOn with
  | nil => exact List.Pairwise.nil
  | append_singleton records record ih =>
    obtain ⟨early, _, last⟩ := List.pairwise_append.mp sorted
    rw [txOrder_snoc]
    split
    · exact ih early
    · next fresh =>
      refine List.pairwise_append.mpr ⟨ih early, List.pairwise_singleton _ _, ?_⟩
      intro known listed other single
      rw [List.mem_singleton.mp single]
      obtain ⟨old, found, rfl⟩ := (mem_txOrder records known).mp listed
      have below := last old found record (by simp)
      have apart : old.txId.toNat ≠ record.txId.toNat :=
        fun same => fresh (UInt64.toNat_inj.mp same ▸ listed)
      omega

theorem recordsOf_sorted (ordered : Ordered history) :
    (recordsOf history).Pairwise fun first second => first.txId.toNat ≤ second.txId.toNat := by
  rw [recordsOf, List.pairwise_flatMap]
  constructor
  · intro attempt _
    rw [Attempt.records, List.pairwise_map]
    exact List.pairwise_of_forall fun _ _ => le_rfl
  · refine ordered.imp fun {first second} order one firstIn two secondIn => ?_
    rw [txId_of_mem_records firstIn, txId_of_mem_records secondIn]
    exact order.1

end Records

/-- The attempt to which a segment belongs: committed, and no later one added the same id. -/
def Owner (history : List Attempt) (attempt : Attempt) : Prop :=
  ∃ before after, history = before ++ attempt :: after ∧ attempt.stage = .committed ∧
    ∀ later ∈ after, later.entry.segmentId ≠ attempt.entry.segmentId

/-- A committed transaction, at or behind a given one, removes the segment. -/
def Dropped (history : List Attempt) (txId segmentId : UInt64) : Prop :=
  ∃ attempt ∈ history, txId.toNat ≤ attempt.txId.toNat ∧ segmentId ∈ attempt.removed ∧
    ∃ witness ∈ history, witness.txId = attempt.txId ∧ witness.stage = .committed

section Owners

variable {history : List Attempt} {attempt : Attempt} {disk : Disk Path}

theorem entryOf_replay_history (ordered : Ordered history) (owner : Owner history attempt)
    (present : (disk (segmentPath attempt.entry.segmentId)).isSome) (manifest : Manifest) :
    ∃ kept : Bool, (kept = true ↔ ¬ Dropped history attempt.txId attempt.entry.segmentId) ∧
      entryOf (replay disk manifest (groupRecords (recordsOf history))).segments
        attempt.entry.segmentId =
        some (keptIf kept attempt.entry) := by
  obtain ⟨before, after, rfl, committed, last⟩ := owner
  obtain ⟨_, behind, ahead⟩ := List.pairwise_append.mp ordered
  rw [List.pairwise_cons] at behind
  have earlier : ∀ other ∈ before, other.txId.toNat ≤ attempt.txId.toNat := fun other listed =>
    (ahead other listed attempt (by simp)).1
  have later : ∀ other ∈ after, attempt.txId.toNat < other.txId.toNat := fun other listed =>
    (behind.1 other listed).2 committed
  generalize whole : before ++ attempt :: after = history at ordered ahead ⊢
  have listed : attempt ∈ history := by simp [← whole]
  obtain ⟨lower, upper, order⟩ :=
    List.append_of_mem ((mem_txOrder (recordsOf history) attempt.txId).mpr
    ((mem_recordsOf_txId attempt.txId).mpr ⟨attempt, listed, rfl⟩))
  have sorted := txOrder_sorted (recordsOf_sorted ordered)
  rw [order] at sorted
  obtain ⟨_, above, below⟩ := List.pairwise_append.mp sorted
  rw [List.pairwise_cons] at above
  have groups : groupRecords (recordsOf history) =
      (lower.map fun txId => summary txId (recordsOf history)) ++
      summary attempt.txId (recordsOf history) :: upper.map fun txId =>
        summary txId (recordsOf history) := by
    rw [groupRecords_eq, order, List.map_append, List.map_cons]
  -- The attempts of the owner's transaction: stale ones, then the owner.
  have own : history.filter (fun other => other.txId = attempt.txId) =
      before.filter (fun other => other.txId = attempt.txId) ++ [attempt] := by
    have none : after.filter (fun other => other.txId = attempt.txId) = [] := by
      rw [List.filter_eq_nil_iff]
      intro other listed same
      have apart := later other listed
      rw [decide_eq_true_eq] at same
      rw [same] at apart
      omega
    rw [← whole, List.filter_append, List.filter_cons, if_pos (by simp), none]
  have added : (summary attempt.txId (recordsOf history)).addedSegments =
      (before.filter fun other => other.txId = attempt.txId).flatMap Attempt.added ++
        [attempt.entry] := by
    rw [(summary_recordsOf history attempt.txId).1, own, List.flatMap_append,
      List.flatMap_singleton, Attempt.added, committed]
  have others : ∀ tx ∈ upper.map (fun txId => summary txId (recordsOf history)),
      ∀ other ∈ tx.addedSegments,
      other.segmentId ≠ attempt.entry.segmentId := by
    intro tx among other inside
    obtain ⟨txId, high, rfl⟩ := List.mem_map.mp among
    rw [(summary_recordsOf history txId).1] at inside
    obtain ⟨adder, found, adds⟩ := List.mem_flatMap.mp inside
    rw [List.mem_filter, decide_eq_true_eq] at found
    have reach := above.1 txId high
    have same : other = adder.entry := by
      rw [Attempt.added] at adds
      split at adds
      · cases adds
      · exact List.mem_singleton.mp adds
    have place := found.1
    rw [← whole, List.mem_append, List.mem_cons] at place
    rcases place with early | rfl | late
    · have bound := earlier adder early
      rw [found.2] at bound
      omega
    · rw [found.2] at reach
      omega
    · rw [same]
      exact last adder late
  have replayed :=
    entryOf_replay_owner disk (lower.map fun txId => summary txId (recordsOf history))
    ((summary_committed history attempt.txId).mpr
    ⟨attempt, listed, rfl, committed⟩) added attempt.named present others manifest
  rw [← groups] at replayed
  refine ⟨_, ?_, replayed⟩
  rw [decide_eq_true_eq]
  constructor
  · rintro kept ⟨remover, found, reach, removal, witness, among, same, done⟩
    have summaryCommitted :=
      (summary_committed history remover.txId).mpr ⟨witness, among, same, done⟩
    have summaryRemoved : attempt.entry.segmentId ∈
        (summary remover.txId (recordsOf history)).removedSegments := by
      rw [(summary_recordsOf history remover.txId).2]
      exact List.mem_flatMap.mpr ⟨remover, by simpa using found, removal⟩
    have place : remover.txId ∈ lower ++ attempt.txId :: upper := by
      rw [← order, mem_txOrder, mem_recordsOf_txId]
      exact ⟨remover, found, rfl⟩
    rcases List.mem_append.mp place with low | high
    · have bound := below remover.txId low attempt.txId (by simp)
      omega
    · refine kept (summary remover.txId (recordsOf history)) ?_ summaryCommitted summaryRemoved
      rcases List.mem_cons.mp high with equal | high
      · rw [equal]
        exact List.mem_cons_self
      · exact List.mem_cons_of_mem _ (List.mem_map_of_mem high)
  · intro undropped tx among done removal
    have place : ∃ txId, attempt.txId.toNat ≤ txId.toNat ∧
        tx = summary txId (recordsOf history) := by
      rcases List.mem_cons.mp among with rfl | among
      · exact ⟨attempt.txId, le_rfl, rfl⟩
      · obtain ⟨txId, high, rfl⟩ := List.mem_map.mp among
        exact ⟨txId, (above.1 txId high).le, rfl⟩
    obtain ⟨txId, reach, rfl⟩ := place
    rw [(summary_recordsOf history txId).2] at removal
    obtain ⟨remover, found, inside⟩ := List.mem_flatMap.mp removal
    rw [List.mem_filter, decide_eq_true_eq] at found
    obtain ⟨witness, listed, same, committed⟩ := (summary_committed history txId).mp done
    exact undropped ⟨remover, found.1, found.2 ▸ reach, inside, witness, listed,
      same.trans found.2.symm, committed⟩

end Owners

/-- The durable files record a history: what is saved of the manifest and the journal, to which
attempt each segment file belongs, and how far the ids have come. -/
structure Recorded (disk : Disk Path) (saved : Manifest) (history : List Attempt)
    (limit : Nat) : Prop where
  sound : saved.Sound
  manifest : SavedManifest disk saved
  journal : SavedJournal disk (recordsOf history)
  writable : ∀ record ∈ recordsOf history, Writable record
  ordered : Ordered history
  owners : ∀ segmentId, (disk (segmentPath segmentId)).isSome →
    ∃ attempt, Owner history attempt ∧ attempt.entry.segmentId = segmentId
  pending : ∀ attempt ∈ history, attempt.txId.toNat ≤ saved.nextTxId.toNat ∨
    ∃ done ∈ history, done.stage = .committed ∧ attempt.txId.toNat ≤ done.txId.toNat + 1
  issued : ∀ attempt ∈ history, attempt.txId.toNat < limit ∧ attempt.entry.segmentId.toNat < limit
  savedTx : saved.nextTxId.toNat ≤ limit
  savedSegment : saved.nextSegmentId.toNat ≤ limit
  small : limit < 2 ^ 64

namespace Recorded

variable {disk : Disk Path} {saved recoveredManifest : Manifest}
  {history : List Attempt} {limit : Nat}

theorem mem_added {attempt : Attempt} {entry : SegmentMeta} (listed : entry ∈ attempt.added) :
    entry = attempt.entry := by
  rw [Attempt.added] at listed
  split at listed
  · cases listed
  · exact List.mem_singleton.mp listed

theorem replayable (recorded : Recorded disk saved history limit) :
    Replayable (groupRecords (recordsOf history)) := by
  have source : ∀ tx ∈ groupRecords (recordsOf history), ∀ entry ∈ tx.addedSegments,
      ∃ attempt ∈ history, entry = attempt.entry := by
    intro tx listed entry inside
    obtain ⟨_, same⟩ := mem_groupRecords.mp listed
    rw [same, (summary_recordsOf history tx.txId).1] at inside
    obtain ⟨attempt, found, adds⟩ := List.mem_flatMap.mp inside
    exact ⟨attempt, List.mem_of_mem_filter found, mem_added adds⟩
  have small := recorded.small
  refine ⟨?_, ?_, ?_⟩
  · intro tx listed entry inside
    obtain ⟨attempt, _, rfl⟩ := source tx listed entry inside
    exact attempt.named
  · intro tx listed entry inside
    obtain ⟨attempt, found, rfl⟩ := source tx listed entry inside
    have bound := (recorded.issued attempt found).2
    omega
  · intro tx listed
    obtain ⟨attempt, found, same⟩ := (mem_recordsOf_txId tx.txId).mp (mem_groupRecords.mp listed).1
    have bound := (recorded.issued attempt found).1
    rw [same] at bound
    omega

theorem summary_mem {attempt : Attempt} (listed : attempt ∈ history) :
    summary attempt.txId (recordsOf history) ∈ groupRecords (recordsOf history) := by
  rw [mem_groupRecords, summary_txId, mem_recordsOf_txId]
  exact ⟨⟨attempt, listed, rfl⟩, rfl⟩

theorem mem_of_owner {attempt : Attempt} (owner : Owner history attempt) :
    attempt ∈ history ∧ attempt.stage = .committed := by
  obtain ⟨before, after, rfl, committed, _⟩ := owner
  exact ⟨by simp, committed⟩

/-- What a recovery leaves in memory: a sound manifest whose next ids lie above everything issued.
-/
structure Restored (disk : Disk Path) (saved : Manifest) (history : List Attempt)
    (limit : Nat) (manifest : Manifest) :
    Prop where
  sound : manifest.Sound
  segments : ∀ segmentId, (disk (segmentPath segmentId)).isSome →
    segmentId.toNat < manifest.nextSegmentId.toNat
  issued : ∀ attempt ∈ history, attempt.txId.toNat ≤ manifest.nextTxId.toNat ∧
    (attempt.stage = .committed → attempt.txId.toNat < manifest.nextTxId.toNat)
  grows : saved.nextTxId.toNat ≤ manifest.nextTxId.toNat
  reach : manifest.nextTxId.toNat ≤ saved.nextTxId.toNat ∨
    ∃ done ∈ history, done.stage = .committed ∧ manifest.nextTxId.toNat ≤ done.txId.toNat + 1
  nextTx : manifest.nextTxId.toNat ≤ limit
  nextSegment : manifest.nextSegmentId.toNat ≤ limit

theorem restored (recorded : Recorded disk saved history limit)
    (result : recovered disk {} = .ok recoveredManifest) :
    Restored disk saved history limit recoveredManifest := by
  have replayed :=
    recovered_eq recorded.sound recorded.manifest recorded.journal recorded.writable result
  obtain ⟨sound, raises, raisesTx⟩ := replay_raises disk recorded.replayable recorded.sound
  have coveredTx : ∀ attempt ∈ history, attempt.stage = .committed →
      attempt.txId.toNat <
        (replay disk saved (groupRecords (recordsOf history))).nextTxId.toNat := by
    intro attempt listed committed
    have covered := raisesTx.covers _ (summary_mem listed)
      ((summary_committed history attempt.txId).mpr ⟨attempt, listed, rfl, committed⟩)
    rwa [summary_txId] at covered
  subst replayed
  refine ⟨?_, ?_, ?_, raisesTx.grows, ?_, ?_, ?_⟩
  · refine sound.of_ids ?_ ?_ le_rfl
    · rw [List.map_map]
      rfl
    · intro entry listed
      obtain ⟨old, found, rfl⟩ := List.mem_map.mp listed
      exact sound.named old found
  · intro segmentId present
    obtain ⟨attempt, owner, rfl⟩ := recorded.owners segmentId present
    obtain ⟨listed, committed⟩ := mem_of_owner owner
    refine raises.covers attempt.entry ?_ present
    rw [committedAdds, List.mem_flatMap]
    refine ⟨summary attempt.txId (recordsOf history), ?_, ?_⟩
    · rw [List.mem_filter]
      exact ⟨summary_mem listed,
        (summary_committed history attempt.txId).mpr ⟨attempt, listed, rfl, committed⟩⟩
    · rw [(summary_recordsOf history attempt.txId).1, List.mem_flatMap]
      exact ⟨attempt, by simpa using listed, by simp [Attempt.added, committed]⟩
  · intro attempt listed
    refine ⟨?_, coveredTx attempt listed⟩
    have grows := raisesTx.grows
    simp only
    rcases recorded.pending attempt listed with below | ⟨done, among, committed, below⟩
    · omega
    · have covered := coveredTx done among committed
      omega
  · rcases raisesTx.reached with same | ⟨tx, listed, isCommitted, same⟩
    · exact .inl same.le
    · obtain ⟨-, equal⟩ := mem_groupRecords.mp listed
      rw [equal] at isCommitted
      obtain ⟨done, found, id, committed⟩ := (summary_committed history tx.txId).mp isCommitted
      exact .inr ⟨done, found, committed, by rw [id]; exact same.le⟩
  · simp only
    rcases raisesTx.reached with same | ⟨tx, listed, _, same⟩
    · rw [same]
      exact recorded.savedTx
    · obtain ⟨attempt, found, equal⟩ :=
        (mem_recordsOf_txId tx.txId).mp (mem_groupRecords.mp listed).1
      have bound := (recorded.issued attempt found).1
      rw [equal] at bound
      omega
  · simp only
    rcases raises.reached with same | ⟨entry, listed, same⟩
    · rw [same]
      exact recorded.savedSegment
    · obtain ⟨tx, found, inside⟩ := List.mem_flatMap.mp listed
      obtain ⟨_, equal⟩ := mem_groupRecords.mp (List.mem_of_mem_filter found)
      rw [equal, (summary_recordsOf history tx.txId).1] at inside
      obtain ⟨attempt, among, adds⟩ := List.mem_flatMap.mp inside
      have bound := (recorded.issued attempt (List.mem_of_mem_filter among)).2
      rw [← mem_added adds] at bound
      omega

theorem recovers (recorded : Recorded disk saved history limit)
    (answers : ∀ segmentId, ∃ valid, segmentValid (disk (segmentPath segmentId)) = .ok valid) :
    ∃ manifest, recovered disk {} = .ok manifest := by
  have sound := (replay_raises disk recorded.replayable recorded.sound).1
  obtain ⟨checked, validated⟩ := @validateSegments_returns disk
    (replay disk saved (groupRecords (recordsOf history))).segments fun seg listed => by
      rw [sound.named seg listed]
      exact answers seg.segmentId
  rw [recovered_validates recorded.sound recorded.manifest recorded.journal
    recorded.writable, validated]
  exact ⟨_, rfl⟩

/-- The segments that are active after a recovery: those of an owner whose file is valid and that
no committed transaction behind it removes. -/
theorem mem_recovered (recorded : Recorded disk saved history limit)
    (result : recovered disk {} = .ok recoveredManifest) (entry : SegmentMeta) :
    entry ∈ recoveredManifest.activeSegments ↔
      ∃ attempt, Owner history attempt ∧ attempt.entry = entry ∧
      fileValid (disk (segmentPath entry.segmentId)) = true ∧
        ¬ Dropped history attempt.txId entry.segmentId := by
  have sound := (recorded.restored result).sound
  have replaySound := (replay_raises disk recorded.replayable recorded.sound).1
  have replayed :=
    recovered_eq recorded.sound recorded.manifest recorded.journal recorded.writable result
  have validated : ∀ segmentId, entryOf recoveredManifest.segments segmentId =
      (entryOf (replay disk saved (groupRecords (recordsOf history))).segments segmentId).map
        (keptIf (fileValid (disk (segmentPath segmentId)))) := by
    intro segmentId
    rw [replayed]
    simp only
    rw [entryOf_map_keptIf]
    cases found : entryOf
      (replay disk saved (groupRecords (recordsOf history))).segments segmentId with
    | none => rfl
    | some old =>
      have name := replaySound.named old (entryOf_mem found)
      rw [entryOf_id found] at name
      rw [Option.map_some, Option.map_some, name, segmentPath]
  rw [mem_activeSegments_iff sound.distinct, validated]
  constructor
  · rintro ⟨found, active⟩
    obtain ⟨old, listed, same⟩ := Option.map_eq_some_iff.mp found
    have valid : fileValid (disk (segmentPath entry.segmentId)) = true := by
      rw [← same, keptIf] at active
      exact (Bool.and_eq_true_iff.mp active).2
    have present : (disk (segmentPath entry.segmentId)).isSome := isSome_of_fileValid valid
    obtain ⟨attempt, owner, named⟩ := recorded.owners _ present
    rw [← named] at present listed
    obtain ⟨kept, undropped, replayEntry⟩ :=
      entryOf_replay_history recorded.ordered owner present saved
    rw [replayEntry, Option.some.injEq] at listed
    rw [valid, keptIf_true] at same
    subst same
    have kept' : kept = true := by
      rw [← listed, keptIf] at active
      exact (Bool.and_eq_true_iff.mp active).2
    rw [kept', keptIf_true] at listed
    subst listed
    exact ⟨attempt, owner, rfl, valid, undropped.mp kept'⟩
  · rintro ⟨attempt, owner, rfl, valid, undropped⟩
    have present : (disk (segmentPath attempt.entry.segmentId)).isSome := isSome_of_fileValid valid
    obtain ⟨kept, iff, replayEntry⟩ := entryOf_replay_history recorded.ordered owner present saved
    rw [iff.mpr undropped, keptIf_true] at replayEntry
    rw [replayEntry, Option.map_some, valid, keptIf_true]
    exact ⟨rfl, attempt.active⟩

end Recorded

end VectorTick
