import VectorTick.Foundation.Ledger
import VectorTick.Storage.Durability

/-! Uncommitted attempts and recovery.

Recovery groups the records of the journal by transaction id over all sessions, and the id of an
attempt that was cut short is given out again. What such an attempt left behind is then taken for
a part of the transaction that follows. Only removals show: added segments are overwritten by the
entry that was committed under the same segment id.
-/

set_option autoImplicit false

namespace VectorTick

open Foundation Journal Catalog Manifest SegmentWriter

/-- The transactions that a journal of one attempt alone would hold. -/
def readAlone (bytes : Bytes) : List RecoveredTx :=
  match Journal.readAll (some (JournalHeader.toBytes 0 ++ bytes)) with
  | .ok txs => txs
  | .error _ => []

/-- The active set that comes from replaying the attempts that wrote their commit record, each on
its own and in order, over the files there are. -/
def committedActive (disk : Disk Path) (attempts : List Bytes) : List SegmentMeta :=
  (replay disk {}
    ((attempts.flatMap readAlone).filter (·.committed))).activeSegments.filter fun entry =>
    fileValid (disk (.root entry.filename))

/-- No compaction that gets as far as its transaction dies between its record and its commit. -/
def CatalogOp.Settles (world : World) : CatalogOp → Prop
  | .compact host ids cut => ∀ catalog events file entry, world.session = some catalog →
      Compacts host world.disk catalog.manifest ids events file entry →
        ∀ crash, cut = some crash → crash.count ≠ 3
  | _ => True

/-- What an attempt cut short has logged removes nothing. -/
def Settled (history : List Attempt) : Prop :=
  ∀ attempt ∈ history, attempt.stage = .logged → removes attempt.op = []

/-- An attempt as a transaction of its own. -/
def Attempt.alone (attempt : Attempt) : RecoveredTx := summary attempt.txId attempt.records

section Alone

variable {history : List Attempt} {attempt : Attempt}

theorem alone_parts (attempt : Attempt) : attempt.alone.txId = attempt.txId ∧
    attempt.alone.addedSegments = attempt.added ∧
    attempt.alone.removedSegments = attempt.removed ∧
      (attempt.alone.committed = true ↔ attempt.stage = .committed) := by
  have single : recordsOf [attempt] = attempt.records := by simp [recordsOf]
  have parts := summary_recordsOf [attempt] attempt.txId
  have committed := summary_committed [attempt] attempt.txId
  rw [single] at parts committed
  refine ⟨summary_txId _ _, ?_, ?_, ?_⟩
  · simpa [Attempt.alone] using parts.1
  · simpa [Attempt.alone] using parts.2
  · simpa [Attempt.alone] using committed

theorem readAlone_bytes (writable : ∀ record ∈ attempt.records, Writable record) :
    readAlone attempt.bytes = [attempt.alone] := by
  have read : Journal.readAll (some (fileOf 0 attempt.records)) =
      .ok (groupRecords attempt.records) :=
    readAll_fileOf writable 0
  unfold readAlone
  rw [show JournalHeader.toBytes 0 ++ attempt.bytes = fileOf 0 attempt.records from rfl, read]
  exact groupRecords_single (records_ne_nil attempt) fun record listed => txId_of_mem_records listed

theorem flatMap_readAlone (writable : ∀ record ∈ recordsOf history, Writable record) :
    (history.map Attempt.bytes).flatMap readAlone = history.map Attempt.alone := by
  rw [List.flatMap_map]
  have each : ∀ attempt ∈ history, readAlone attempt.bytes = [attempt.alone] :=
    fun attempt listed =>
    readAlone_bytes fun record inside =>
      writable record (List.mem_flatMap.mpr ⟨attempt, listed, inside⟩)
  rw [List.flatMap_congr each]
  induction history with
  | nil => rfl
  | cons first rest ih =>
    rw [List.flatMap_cons, List.map_cons, ih, List.singleton_append]
    · exact fun record inside => writable record (by
        rw [recordsOf, List.flatMap_cons]
        exact List.mem_append_right _ inside)
    · exact fun attempt listed => each attempt (by simp [listed])

/-- With nothing half done that removes, a segment is dropped by the committed attempts from its
owner on. -/
theorem dropped_iff {before after : List Attempt} (ordered : Ordered (before ++ attempt :: after))
    (settled : Settled (before ++ attempt :: after)) (segmentId : UInt64) :
    Dropped (before ++ attempt :: after) attempt.txId segmentId ↔
      ∃ later ∈ attempt :: after, later.stage = .committed ∧ segmentId ∈ later.removed := by
  obtain ⟨_, behind, ahead⟩ := List.pairwise_append.mp ordered
  constructor
  · rintro ⟨remover, listed, reach, removal, -⟩
    have committed : remover.stage = .committed := by
      have none := settled remover listed
      unfold Attempt.removed at removal
      cases stage : remover.stage with
      | begun =>
        rw [stage] at removal
        cases removal
      | logged =>
        rw [stage, none stage] at removal
        cases removal
      | committed => rfl
    rcases List.mem_append.mp listed with early | late
    · have below := (ahead remover early attempt (by simp)).2 committed
      omega
    · exact ⟨remover, late, committed, removal⟩
  · rintro ⟨later, listed, committed, removal⟩
    refine ⟨later, List.mem_append_right _ listed, ?_, removal, later,
      List.mem_append_right _ listed, rfl, committed⟩
    rcases List.mem_cons.mp listed with rfl | late
    · exact le_rfl
    · exact ((List.pairwise_cons.mp behind).1 later late).1

variable {disk : Disk Path} {saved : Manifest} {limit : Nat}

theorem replayable_alone (recorded : Recorded disk saved history limit) :
    Replayable ((history.map Attempt.alone).filter (·.committed)) := by
  have small := recorded.small
  have source : ∀ tx ∈ (history.map Attempt.alone).filter (·.committed),
      ∃ attempt ∈ history, attempt.alone = tx :=
    fun tx listed => List.mem_map.mp (List.mem_of_mem_filter listed)
  refine ⟨?_, ?_, ?_⟩
  · intro tx listed entry inside
    obtain ⟨attempt, found, rfl⟩ := source tx listed
    rw [(alone_parts attempt).2.1] at inside
    rw [Recorded.mem_added inside]
    exact attempt.named
  · intro tx listed entry inside
    obtain ⟨attempt, found, rfl⟩ := source tx listed
    rw [(alone_parts attempt).2.1] at inside
    have bound := (recorded.issued attempt found).2
    rw [Recorded.mem_added inside]
    omega
  · intro tx listed
    obtain ⟨attempt, found, rfl⟩ := source tx listed
    have bound := (recorded.issued attempt found).1
    rw [(alone_parts attempt).1]
    omega

theorem entryOf_replay_alone {before after : List Attempt} (committed : attempt.stage = .committed)
    (last : ∀ later ∈ after, later.entry.segmentId ≠ attempt.entry.segmentId)
    (present : (disk (segmentPath attempt.entry.segmentId)).isSome) :
    entryOf (replay disk {}
      (((before ++ attempt :: after).map Attempt.alone).filter (·.committed))).segments
        attempt.entry.segmentId =
      some (keptIf (∀ later ∈ attempt :: after, later.stage = .committed →
        attempt.entry.segmentId ∉ later.removed)
        attempt.entry) := by
  obtain ⟨-, added, -, isCommitted⟩ := alone_parts attempt
  have split : ((before ++ attempt :: after).map Attempt.alone).filter (·.committed) =
      (before.map Attempt.alone).filter (·.committed) ++
        attempt.alone :: (after.map Attempt.alone).filter (·.committed) := by
    rw [List.map_append, List.filter_append, List.map_cons, List.filter_cons,
      if_pos (isCommitted.mpr committed)]
  have others : ∀ tx ∈ (after.map Attempt.alone).filter (·.committed), ∀ other ∈ tx.addedSegments,
      other.segmentId ≠ attempt.entry.segmentId := by
    intro tx listed other inside
    obtain ⟨later, found, rfl⟩ := List.mem_map.mp (List.mem_of_mem_filter listed)
    rw [(alone_parts later).2.1] at inside
    rw [Recorded.mem_added inside]
    exact last later found
  have entries : attempt.alone.addedSegments = [] ++ [attempt.entry] := by
    rw [added, Attempt.added, committed]
    rfl
  rw [split,
    entryOf_replay_owner disk _ (isCommitted.mpr committed) entries attempt.named present others]
  congr 2
  rw [decide_eq_decide]
  constructor
  · intro kept later listed done removal
    refine kept later.alone ?_ ((alone_parts later).2.2.2.mpr done)
      (by rwa [(alone_parts later).2.2.1])
    rcases List.mem_cons.mp listed with rfl | late
    · exact List.mem_cons_self
    · refine List.mem_cons_of_mem _ (List.mem_filter.mpr ⟨List.mem_map_of_mem late, ?_⟩)
      exact (alone_parts later).2.2.2.mpr done
  · intro undropped tx listed done removal
    rcases List.mem_cons.mp listed with rfl | late
    · rw [(alone_parts attempt).2.2.1] at removal
      exact undropped attempt (by simp) committed removal
    · obtain ⟨later, found, rfl⟩ := List.mem_map.mp (List.mem_of_mem_filter late)
      rw [(alone_parts later).2.2.1] at removal
      exact undropped later (by simp [found]) ((alone_parts later).2.2.2.mp done) removal

theorem mem_committedActive_of {before after : List Attempt}
    (recorded : Recorded disk saved (before ++ attempt :: after) limit)
    (committed : attempt.stage = .committed)
    (last : ∀ later ∈ after, later.entry.segmentId ≠ attempt.entry.segmentId)
    (valid : fileValid (disk (segmentPath attempt.entry.segmentId)) = true)
    (kept : ∀ later ∈ attempt :: after, later.stage = .committed →
      attempt.entry.segmentId ∉ later.removed) :
    attempt.entry ∈ committedActive disk ((before ++ attempt :: after).map Attempt.bytes) := by
  have sound := (replay_raises disk (replayable_alone recorded) sound_empty).1
  unfold committedActive
  rw [flatMap_readAlone recorded.writable, List.mem_filter, mem_activeSegments_iff sound.distinct,
    entryOf_replay_alone committed last (isSome_of_fileValid valid), decide_eq_true kept,
    keptIf_true, attempt.named]
  exact ⟨⟨rfl, attempt.active⟩, valid⟩

theorem mem_committedActive (recorded : Recorded disk saved history limit)
    (settled : Settled history)
    (entry : SegmentMeta) :
    entry ∈ committedActive disk (history.map Attempt.bytes) ↔
      ∃ attempt, Owner history attempt ∧ attempt.entry = entry ∧
      fileValid (disk (segmentPath entry.segmentId)) = true ∧
        ¬ Dropped history attempt.txId entry.segmentId := by
  constructor
  · have sound := (replay_raises disk (replayable_alone recorded) sound_empty).1
    unfold committedActive
    rw [flatMap_readAlone recorded.writable, List.mem_filter]
    rintro ⟨listed, valid⟩
    obtain ⟨found, active⟩ := (mem_activeSegments_iff sound.distinct).mp listed
    rw [sound.named entry (entryOf_mem found), ← segmentPath] at valid
    have present : (disk (segmentPath entry.segmentId)).isSome := isSome_of_fileValid valid
    obtain ⟨attempt, owner, named⟩ := recorded.owners _ present
    obtain ⟨before, after, rfl, committed, last⟩ := id owner
    rw [← named] at present found
    rw [entryOf_replay_alone committed last present, Option.some.injEq] at found
    have kept : ∀ later ∈ attempt :: after, later.stage = .committed →
        attempt.entry.segmentId ∉ later.removed := by
      rw [← found, keptIf] at active
      exact of_decide_eq_true (Bool.and_eq_true_iff.mp active).2
    rw [decide_eq_true kept, keptIf_true] at found
    subst found
    refine ⟨attempt, owner, rfl, valid, ?_⟩
    rw [dropped_iff recorded.ordered settled]
    rintro ⟨later, late, done, removal⟩
    exact kept later late done removal
  · rintro ⟨attempt, ⟨before, after, rfl, committed, last⟩, rfl, valid, undropped⟩
    rw [dropped_iff recorded.ordered settled] at undropped
    exact mem_committedActive_of recorded committed last valid fun later late done removal =>
      undropped ⟨later, late, done, removal⟩

end Alone

section Runs

variable {world : World} {saved : Manifest} {history : List Attempt} {count : Nat} {added : Attempt}

theorem settled_snoc (settled : Settled history)
    (last : added.stage = .logged → removes added.op = []) :
    Settled (history ++ [added]) := by
  intro attempt listed logged
  rcases List.mem_append.mp listed with old | new
  · exact settled attempt old logged
  · obtain rfl := List.mem_singleton.mp new
    exact last logged

theorem Attempt.From.settled {op : CatalogOp} (made : added.From op)
    (settles : ∀ host ids cut, op = .compact host ids cut →
      ∀ crash, cut = some crash → crash.count ≠ 3) :
    added.stage = .logged → removes added.op = [] := by
  intro logged
  cases op with
  | commit tempPath entry cut =>
    obtain ⟨segment, same⟩ := made
    rw [same]
    rfl
  | compact host ids cut =>
    obtain ⟨crash, cutThere, place⟩ := made.2 logged
    exact absurd place (settles host ids cut rfl crash cutThere)
  | stage path file => exact made.elim
  | leave => exact made.elim
  | openCatalog now cut => exact made.elim

/-- A compaction that does not get as far as its transaction leaves the history as it is. -/
theorem Reached.silent (reached : Reached world saved history count)
    {host : Host} {ids : List UInt64}
    (silent : ∀ catalog events file entry, world.session = some catalog →
      ¬ Compacts host world.disk catalog.manifest ids events file entry)
      (few : count + 1 < 2 ^ 64) (cut : Option Cut) :
    Reached (world.step (.compact host ids cut)) saved history (count + 1) := by
  refine ⟨?_, fun _ => Nat.le_add_left 1 count⟩
  unfold World.step
  cases found : world.session with
  | none => exact reached.invariant.widen (by omega) (by omega)
  | some catalog =>
    have started := reached.started (by rw [found]; rfl)
    have session := reached.invariant.session catalog found
    rcases compactSegments_cases host world.disk ids session.opened with
      ⟨events, file, entry, compacts⟩ | quiet
    · exact absurd compacts (silent catalog events file entry found)
    · exact (quiet_step reached.invariant session quiet (Prog.exec_disk ..)
        (by omega) cut).1.widen (by omega) (by omega)

theorem Reached.settles (reached : Reached world saved history count)
    (settled : Settled history) {op : CatalogOp}
    (careful : op.Careful) (settles : op.Settles world) (few : count + 1 < 2 ^ 64) :
    ∃ saved' longer, Reached (world.step op) saved' longer (count + 1) ∧ Settled longer := by
  by_cases silent : ∃ host ids cut, op = .compact host ids cut ∧ ∀ catalog events file entry,
      world.session = some catalog →
        ¬ Compacts host world.disk catalog.manifest ids events file entry
  · obtain ⟨host, ids, cut, rfl, silent⟩ := silent
    exact ⟨saved, history, reached.silent silent few cut, settled⟩
  · obtain ⟨saved', longer, kept, grows, -⟩ := reached.step careful few
    refine ⟨saved', longer, kept, ?_⟩
    rcases grows with rfl | ⟨added, rfl, made, -⟩
    · exact settled
    · refine settled_snoc settled (made.settled ?_)
      rintro host ids cut rfl
      push Not at silent
      obtain ⟨catalog, events, file, entry, found, compacts⟩ := silent host ids cut rfl
      exact settles catalog events file entry found compacts

theorem Reached.settledRun (reached : Reached world saved history count)
    (settled : Settled history) {ops : List CatalogOp}
    (careful : ∀ op ∈ ops, op.Careful)
    (settles : Allowed World.step (fun world op => op.Settles world) ops world)
    (few : count + ops.length < 2 ^ 64) :
    ∃ saved' longer, Reached (world.run ops) saved' longer (count + ops.length) ∧
      Settled longer := by
  induction ops generalizing world saved history count with
  | nil => exact ⟨saved, history, reached, settled⟩
  | cons op rest ih =>
    rw [List.length_cons] at few
    obtain ⟨middle, longer, kept, settled'⟩ :=
      reached.settles settled (careful op (by simp)) settles.1 (by omega)
    rw [List.length_cons, Nat.add_comm rest.length 1, ← Nat.add_assoc]
    exact ih kept settled'
      (fun other listed => careful other (by simp [listed])) settles.2 (by omega)

end Runs

/-- In a run in which no compaction dies between its record and its commit, what a recovery finds
active comes from the committed attempts alone. -/
theorem recovery_isolated {start : World} (blank : start.Blank) {ops : List CatalogOp}
    (careful : ∀ op ∈ ops, op.Careful)
    (settles : Allowed World.step (fun world op => op.Settles world) ops start)
    (few : ops.length < 2 ^ 64)
    (returned : (recover.exec [] (start.run ops).disk {}).outcome = .ok ()) (entry : SegmentMeta) :
    entry ∈ (recover.exec [] (start.run ops).disk {}).state.activeSegments ↔
      entry ∈ committedActive (recover.exec [] (start.run ops).disk {}).disk
        (start.run ops).attempts := by
  obtain ⟨saved, history, reached, settled⟩ :=
    (blank_reached blank).settledRun (fun _ impossible => by cases impossible)
    careful settles (by omega)
  have recorded := reached.invariant.recorded
  have swept' := recorded.untouched (untouched_swept _) le_rfl recorded.small
  obtain ⟨manifest, result, state, segments⟩ := recover_returned returned
  have final := saved_recorded recorded result
  have disk : (recover.exec [] (start.run ops).disk {}).disk =
      applyAll (swept (start.run ops).disk) (done (saveEffects manifest)) := by
    rw [recover_exec {} result]
    rfl
  rw [Catalog.activeSegments, state, swept'.mem_recovered result, reached.invariant.attempts, disk,
    mem_committedActive final settled, ← disk]
  simp only [segments, (untouched_swept _).segments]

theorem quoteCommitted_run (file : Bytes) : quoteCommitted file =
    blankWorld.run [.openCatalog 0 none, .stage quotePath file, .commit quotePath {} none] := by
  unfold quoteCommitted quoteStaged World.run
  simp only [List.foldl_cons, List.foldl_nil]

theorem recovery_isolated_quote :
    ∃ file, SegmentReader.Reads file [quoteEvent] ∧ ∀ entry,
      entry ∈ (recover.exec [] (quoteCommitted file).disk {}).state.activeSegments ↔
        entry ∈ committedActive (recover.exec [] (quoteCommitted file).disk {}).disk
          (quoteCommitted file).attempts := by
  obtain ⟨file, reads⟩ := quote_readable
  have careful : ∀ op ∈ [CatalogOp.openCatalog 0 none, .stage quotePath file,
      .commit quotePath {} none], op.Careful := by
    intro op listed
    simp only [List.mem_cons, List.not_mem_nil, or_false] at listed
    rcases listed with rfl | rfl | rfl
    · exact fun _ impossible => (nomatch impossible)
    · exact quotePath_foreign
    · exact quotePath_foreign
  have returned := quoteCommitted_recovers reads
  refine ⟨file, reads, ?_⟩
  rw [quoteCommitted_run] at returned ⊢
  exact recovery_isolated blankWorld_blank careful
    ⟨trivial, trivial, trivial, trivial⟩ (by simp) returned

-- A quote is committed. A compaction of its segment dies behind its record, and a second quote is
-- committed in the next session, under the same transaction id. The next recovery carries out the
-- removal of the first segment, which was never committed.

theorem not_eventLess_trans {a b c : CanonicalEvent} (first : eventLess b a = false)
    (second : eventLess c b = false) :
    eventLess c a = false := by
  unfold eventLess at *
  grind

theorem not_eventLess_total (a b : CanonicalEvent) :
    eventLess b a = false ∨ eventLess a b = false := by
  unfold eventLess
  grind

def eventOrder : EventSort where
  sort := fun events => events.mergeSort fun a b => !eventLess b a
  perm := fun events => List.mergeSort_perm events _
  sorted := fun events => by
    have sorted := @List.pairwise_mergeSort _ (fun a b => !eventLess b a)
      (fun a b c first second => by simpa using not_eventLess_trans (by simpa using first) (by
        simpa using second))
      (fun a b => by simpa using not_eventLess_total a b) events
    exact sorted.imp fun {a b} le => by simpa using le

def plainHost : Host := ⟨zeroed, eventOrder⟩

theorem quote_compacts {disk : Disk Path} {manifest : Manifest} {segmentId : UInt64}
    {seg : SegmentMeta} {file : Bytes}
    (found : manifest.findSegment segmentId = some seg)
    (there : disk (.root seg.filename) = some file)
    (reads : SegmentReader.Reads file [quoteEvent]) :
    ∃ compacted entry, Compacts plainHost disk manifest [segmentId]
    [quoteEvent] compacted entry := by
  obtain ⟨reader, opened, -, read⟩ := reads
  have collected : collectEvents disk manifest [segmentId] = .ok [quoteEvent] := by
    unfold collectEvents
    rw [found]
    dsimp only
    rw [there, opened, ok_bind, read, ok_bind]
    rfl
  have sorted : plainHost.order.sort [quoteEvent] = [quoteEvent] :=
    List.perm_singleton.mp (plainHost.order.perm _)
  obtain ⟨fresh, writer, compacted, created, added, written⟩ :=
    SegmentReader.quote_written_as manifest.nextSegmentId
    (le_refl 1) (by decide)
  obtain ⟨other, openedAgain, -⟩ :=
    SegmentReader.writeToFile_reads (holds_of_addEvents created added) (by decide)
    (by decide) written
  refine ⟨compacted,
    _, by simp, collected, by simp, ⟨fresh, writer, ?_, ?_, written⟩, ⟨other, openedAgain, rfl⟩⟩
  · rw [sorted]
    exact created
  · rw [sorted]
    exact added

def tornRun (file : Bytes) : List CatalogOp :=
  [.openCatalog 0 none, .stage quotePath file, .commit quotePath {} none, .compact plainHost [1]
    (some ⟨3, fun _ => false⟩),
    .openCatalog 0 none, .stage quotePath file, .commit quotePath {} none]

theorem torn_compaction {world : World} {saved : Manifest} {history : List Attempt}
    {count : Nat} {catalog : Catalog}
    {host : Host} {ids : List UInt64} {events : List CanonicalEvent}
    {file : Bytes} {entry : SegmentMeta}
    (reached : Reached world saved history count) (found : world.session = some catalog)
    (compacts : Compacts host world.disk catalog.manifest ids events file entry) (fits : Fits ids)
    (few : count + 1 < 2 ^ 64) (swept : Path → Bool) :
    ∃ attempt : Attempt, attempt.txId = catalog.manifest.nextTxId ∧
      attempt.entry.segmentId = catalog.manifest.nextSegmentId ∧ attempt.stage = .logged ∧
        removes attempt.op = ids ∧
      Reached (world.step (.compact host ids (some ⟨3, swept⟩))) saved
        (history ++ [attempt]) (count + 1) ∧
      ∀ segmentId, (world.step (.compact host ids (some ⟨3, swept⟩))).disk (segmentPath segmentId) =
        world.disk (segmentPath segmentId) := by
  have session := reached.invariant.session catalog found
  have started := reached.started (by rw [found]; rfl)
  have performs := compact_performs compacts fits
  have early : 3 < (compactEffects catalog.manifest ids file entry).length := by
    rw [performs.length, List.length_singleton]
    omega
  have ran : world.step (.compact host ids (some ⟨3, swept⟩)) =
      world.afterCall (installRun world.disk catalog ids entry
      (compactEffects catalog.manifest ids file entry)
        [catalog.manifest.nextSegmentId]) (some ⟨3, swept⟩) := by
    unfold World.step
    rw [found]
    dsimp only
    rw [compactSegments_exec session.opened compacts]
    rfl
  have torn :=
    (@install_cut _ _ _ _ _ _ _ _ _ _ _ _ _ _ reached.invariant session performs (by omega)
    [catalog.manifest.nextSegmentId] ⟨3, swept⟩ 2 (by omega) rfl early).1
  rw [if_pos (by omega), ← ran] at torn
  refine ⟨performs.installs.attempt (stageAt 2), rfl, performs.installs.id, rfl, rfl,
    ⟨torn.widen (by omega) (by omega), fun _ => by omega⟩, ?_⟩
  obtain ⟨creationTs, journal⟩ := session.journal
  intro segmentId
  have observed :=
    @install_observed _ _ file catalog.manifest.nextTxId catalog.manifest.nextSegmentId
    (.compactSegments ids [entry]) _ (installManifest catalog.manifest ids entry) ids 2
    (performs.installs.untouched.journal.trans journal) performs.installs.foreign fun _ =>
      performs.found
  have kept := observed.2.2 segmentId
  have disk : (world.step (.compact host ids (some ⟨3, swept⟩))).disk =
      applyAll world.disk
        ((done (compactEffects catalog.manifest ids file entry)).take (1 + 2)) := by
    rw [ran]
    unfold World.afterCall installRun
    dsimp only
    rw [if_pos (by simpa [done] using early), cutDisk_steady performs.steady]
  rw [if_pos (by omega), performs.installs.untouched.segments] at kept
  rw [disk, ← kept]
  exact congrFun (performs.disk_at 2) (segmentPath segmentId)

theorem open_reached {world : World} {saved : Manifest} {history : List Attempt} {count : Nat}
    (reached : Reached world saved history count)
    (answers : ∀ segmentId, ∃ valid, segmentValid (world.disk (segmentPath segmentId)) = .ok valid)
    (few : count + 1 < 2 ^ 64) (now : UInt64) :
    ∃ saved' manifest, Reached (world.step (.openCatalog now none)) saved' history (count + 1) ∧
      (world.step (.openCatalog now none)).session = some ⟨manifest, ⟨some journalPath⟩⟩ ∧
      Recorded.Restored (swept world.disk) saved history (max 1 count) manifest ∧
      Keeps [] world.disk (world.step (.openCatalog now none)).disk := by
  have recorded := reached.invariant.recorded
  have swept' := recorded.untouched (untouched_swept world.disk) le_rfl recorded.small
  obtain ⟨manifest, result⟩ := swept'.recovers fun segmentId => by
    rw [(untouched_swept world.disk).segments]
    exact answers segmentId
  have careful : (CatalogOp.openCatalog now none).Careful :=
    fun _ impossible => (nomatch impossible)
  obtain ⟨saved', longer, kept, grows, keeps⟩ := reached.step careful few
  have same : longer = history := by
    rcases grows with same | ⟨added, _, made, -⟩
    · exact same
    · exact made.elim
  rw [same] at kept
  refine ⟨saved', manifest, kept, ?_, swept'.restored result, keeps⟩
  change (world.afterOpen ((Catalog.openCatalog now).exec [] world.disk {}) none).session = _
  rw [openCatalog_exec now result]
  rfl

/-- The first commit of the torn run, and the compaction that dies, as the journal has them. -/
structure TornPair (first torn : Attempt) : Prop where
  firstTx : first.txId = 1
  entry : first.entry = committedMeta {} 1
  committed : first.stage = .committed
  keeps : removes first.op = []
  tornTx : torn.txId = 2
  tornId : torn.entry.segmentId = 2
  logged : torn.stage = .logged
  drops : removes torn.op = [1]

/-- The second commit, which is given the transaction id of the compaction. -/
structure TornLast (last : Attempt) : Prop where
  lastTx : last.txId = 2
  apart : last.entry.segmentId ≠ 1
  committed : last.stage = .committed
  keeps : removes last.op = []

section Torn

variable {first torn last : Attempt} {world : World} {saved : Manifest} {file : Bytes}
  (pair : TornPair first torn)
include pair

theorem TornPair.only {attempt : Attempt} (listed : attempt ∈ [first, torn])
    (committed : attempt.stage = .committed) :
    attempt = first := by
  simp only [List.mem_cons, List.not_mem_nil, or_false] at listed
  rcases listed with rfl | rfl
  · rfl
  · rw [pair.logged] at committed
    cases committed

/-- The next session opens, with the id of the compaction to be issued next. -/
theorem torn_reopened (reached : Reached world saved [first, torn] 4)
    (saved2 : saved.nextTxId.toNat = 2)
    (valid : segmentValid (some file) = .ok true)
    (files : ∀ segmentId, world.disk (segmentPath segmentId) = if segmentId =
      1 then some file else none) :
    ∃ saved' manifest, Reached (world.step (.openCatalog 0 none)) saved' [first, torn] 5 ∧
      (world.step (.openCatalog 0 none)).session = some ⟨manifest, ⟨some journalPath⟩⟩ ∧
      manifest.nextTxId = 2 ∧ manifest.nextSegmentId ≠ 1 ∧
      (world.step (.openCatalog 0 none)).disk (segmentPath 1) = some file := by
  obtain ⟨saved', manifest, reached', session, restored, keeps⟩ :=
    open_reached reached (fun segmentId => by
    rw [files]
    split
    · exact ⟨true, valid⟩
    · exact ⟨false, rfl⟩) (by decide) 0
  have there : world.disk (segmentPath 1) = some file := files 1
  refine ⟨saved', manifest, reached', session, UInt64.toNat_inj.mp ?_, fun same => ?_, ?_⟩
  · have atLeast := (restored.issued torn (by simp)).1
    rw [pair.tornTx] at atLeast
    rcases restored.reach with below | ⟨done, listed, committed, below⟩
    · exact le_antisymm (below.trans saved2.le) atLeast
    · rw [pair.only listed committed, pair.firstTx] at below
      exact le_antisymm below atLeast
  · have below := restored.segments 1 (by rw [(untouched_swept world.disk).segments, there]; rfl)
    rw [same] at below
    exact lt_irrefl _ below
  · rw [keeps 1 (by rw [there]; rfl) (by simp), there]

/-- A commit in this session, with the files that are there behind it. -/
theorem torn_committed {manifest : Manifest} (reached : Reached world saved [first, torn] 5)
    (session : world.session = some ⟨manifest, ⟨some journalPath⟩⟩) (nextTx : manifest.nextTxId = 2)
    (nextSegment : manifest.nextSegmentId ≠ 1) (valid : segmentValid (some file) = .ok true)
    (there : world.disk (segmentPath 1) = some file) :
    ∃ last, TornLast last ∧
      (∃ saved', Reached ((world.step (.stage quotePath file)).step (.commit quotePath {} none))
        saved' [first, torn, last] 7) ∧
      ((world.step (.stage quotePath file)).step (.commit quotePath {} none)).disk
        (segmentPath 1) = some file ∧
      ∀ segmentId, ∃ answer, segmentValid (((world.step (.stage quotePath file)).step
        (.commit quotePath {} none)).disk (segmentPath segmentId)) = .ok answer := by
  obtain ⟨saved', longer, reached', grows, keeps⟩ :=
    @Reached.step _ _ _ _ reached (.stage quotePath file)
    quotePath_foreign (by decide)
  have same : longer = [first, torn] := by
    rcases grows with same | ⟨added, _, made, -⟩
    · exact same
    · exact made.elim
  subst same
  have session' : (world.step (.stage quotePath file)).session =
      some ⟨manifest, ⟨some journalPath⟩⟩ := session
  have staged : (world.step (.stage quotePath file)).disk quotePath = some file := by
    change Function.update world.disk quotePath (some file) quotePath = some file
    exact Function.update_self ..
  have kept : (world.step (.stage quotePath file)).disk (segmentPath 1) = some file := by
    rw [keeps 1 (by rw [there]; rfl) (by simp [CatalogOp.removed]), there]
  generalize world.step (.stage quotePath file) = world' at *
  have files :=
    commit_segments (reached'.invariant.session _ session') session' quotePath_foreign staged {}
  obtain ⟨last, lastTx, entry, committed, removes, reached'', -⟩ :=
    commit_reached reached' session' quotePath_foreign
    staged (by decide) {}
  refine ⟨last, ⟨lastTx.trans nextTx, ?_, committed, removes⟩, ⟨_, reached''⟩,
    ?_, fun segmentId => ?_⟩
  · rw [entry]
    exact nextSegment
  · rw [files, kept, ite_self]
  · rw [files]
    split
    · exact ⟨true, valid⟩
    · cases found : world'.disk (segmentPath segmentId) with
      | none => exact ⟨false, rfl⟩
      | some other =>
        obtain ⟨owner, owns, id⟩ :=
          reached'.invariant.recorded.owners segmentId (by rw [found]; rfl)
        obtain ⟨listed, done⟩ := Recorded.mem_of_owner owns
        rw [pair.only listed done, pair.entry] at id
        have one : segmentId = 1 := id.symm
        rw [one, kept] at found
        cases found
        exact ⟨true, valid⟩

/-- Replaying the committed attempts alone keeps the first segment. -/
theorem torn_counted {disk : Disk Path} {limit : Nat} (after : TornLast last)
    (recorded : Recorded disk saved [first, torn, last] limit)
    (valid : fileValid (disk (segmentPath 1)) = true) :
    committedMeta {} 1 ∈ committedActive disk ([first, torn, last].map Attempt.bytes) := by
  have place : first.entry.segmentId = 1 := by rw [pair.entry]; rfl
  have others : ∀ other ∈ [torn, last], other.entry.segmentId ≠ first.entry.segmentId := by
    intro other listed
    rw [place]
    simp only [List.mem_cons, List.not_mem_nil, or_false] at listed
    rcases listed with rfl | rfl
    · rw [pair.tornId]
      decide
    · exact after.apart
  have kept : ∀ other ∈ [first, torn, last], other.stage = .committed →
      first.entry.segmentId ∉ other.removed := by
    intro other listed done inside
    have none : removes other.op = [] := by
      simp only [List.mem_cons, List.not_mem_nil, or_false] at listed
      rcases listed with rfl | rfl | rfl
      · exact pair.keeps
      · rw [pair.logged] at done
        cases done
      · exact after.keeps
    unfold Attempt.removed at inside
    rw [done, none] at inside
    cases inside
  have active := @mem_committedActive_of first _ _ _ []
    [torn, last] recorded pair.committed others (place ▸ valid) kept
  rwa [pair.entry] at active

/-- The removal of the compaction is replayed with the second commit,
which has its transaction id. -/
theorem torn_dropped {disk : Disk Path} {limit : Nat} {final : Manifest} (after : TornLast last)
    (recorded : Recorded disk saved [first, torn, last] limit)
    (result : recovered disk {} = .ok final) :
    committedMeta {} 1 ∉ final.activeSegments := by
  rw [recorded.mem_recovered result]
  rintro ⟨attempt, owner, -, -, undropped⟩
  refine undropped ⟨torn, by simp, ?_, ?_, last, by simp, ?_, after.committed⟩
  · have listed := (Recorded.mem_of_owner owner).1
    simp only [List.mem_cons, List.not_mem_nil, or_false] at listed
    rcases listed with rfl | rfl | rfl
    · rw [pair.firstTx, pair.tornTx]
      decide
    · exact le_rfl
    · rw [after.lastTx, pair.tornTx]
  · unfold Attempt.removed
    rw [pair.logged, pair.drops]
    exact List.mem_singleton.mpr rfl
  · rw [after.lastTx, pair.tornTx]

end Torn

/-- The quote is committed, and a compaction of its segment dies behind its record. -/
def tornWorld (file : Bytes) : World :=
  (quoteCommitted file).step (.compact plainHost [1] (some ⟨3, fun _ => false⟩))

theorem tornRun_eq (file : Bytes) : blankWorld.run (tornRun file) =
    (((tornWorld file).step (.openCatalog 0 none)).step (.stage quotePath file)).step
      (.commit quotePath {} none) := by
  unfold tornRun tornWorld quoteCommitted quoteStaged World.run
  simp only [List.foldl_cons, List.foldl_nil]

theorem tornWorld_reached {file : Bytes} (reads : SegmentReader.Reads file [quoteEvent]) :
    ∃ first torn, TornPair first torn ∧ Reached (tornWorld file)
    (commitManifest {} {}) [first, torn] 4 ∧
      ∀ segmentId, (tornWorld file).disk (segmentPath segmentId) = if segmentId = 1 then
        some file else none := by
  obtain ⟨saved, reached⟩ := quoteStaged_reached file
  obtain ⟨first, firstTx, entry, committed, keeps, reached', session⟩ :=
    commit_reached reached (quoteStaged_session file)
    quotePath_foreign (quoteStaged_file file) (by decide) {}
  have files := quoteCommitted_segments file
  have active : (commitManifest {} {}).findSegment 1 = some (committedMeta {} 1) := rfl
  obtain ⟨compacted, merged, compacts⟩ := quote_compacts active (files 1) reads
  obtain ⟨torn, tornTx, tornId, logged, drops, reached'', same⟩ :=
    torn_compaction reached' session compacts
    (by unfold Fits; decide) (by decide) fun _ => false
  exact ⟨first, torn, ⟨firstTx, entry, committed, keeps, tornTx, tornId, logged, drops⟩, reached'',
    fun segmentId => (same segmentId).trans (files segmentId)⟩

/-- A compaction that no session committed takes a segment out of the recovered state. -/
theorem recovery_not_isolated :
    ∃ file, SegmentReader.Reads file [quoteEvent] ∧
      (recover.exec [] (blankWorld.run (tornRun file)).disk {}).outcome = .ok () ∧
      committedMeta {} 1 ∈
        committedActive (recover.exec [] (blankWorld.run (tornRun file)).disk {}).disk
        (blankWorld.run (tornRun file)).attempts ∧
      committedMeta {} 1 ∉ (recover.exec []
        (blankWorld.run (tornRun file)).disk {}).state.activeSegments := by
  obtain ⟨file, reads⟩ := quote_readable
  have valid := segmentValid_of_reads reads
  refine ⟨file, reads, ?_⟩
  rw [tornRun_eq]
  obtain ⟨first, torn, pair, reached, files⟩ := tornWorld_reached reads
  obtain ⟨saved, manifest, reopened, session, nextTx, nextSegment, there⟩ :=
    torn_reopened pair reached rfl valid files
  obtain ⟨last, after, ⟨saved', committed⟩, there', answers⟩ :=
    torn_committed pair reopened session nextTx nextSegment
    valid there
  generalize (((tornWorld file).step (.openCatalog 0 none)).step (.stage quotePath file)).step
    (.commit quotePath {} none) = world at *
  have recorded := committed.invariant.recorded
  have clean := recorded.untouched (untouched_swept world.disk) le_rfl recorded.small
  obtain ⟨final, result⟩ := clean.recovers fun segmentId => by
    rw [(untouched_swept world.disk).segments]
    exact answers segmentId
  rw [recover_exec {} result, committed.invariant.attempts]
  refine ⟨rfl, torn_counted pair after (saved_recorded recorded result) ?_,
    torn_dropped pair after clean result⟩
  change fileValid (applyAll (swept world.disk) (done (saveEffects final)) (segmentPath 1)) = true
  rw [(save_untouched final world.disk).2, there', fileValid, valid]
  rfl

end VectorTick
