import VectorTick.Storage.History

/-! The durable effects of the catalog's operations, in program order,
when file operations succeed. -/

set_option autoImplicit false

namespace VectorTick.Catalog

open Foundation Journal Manifest

def done (effects : List (Effect Path)) : List (Performed Path) :=
  effects.map fun effect => (effect, .done)

@[simp] theorem done_append (first second : List (Effect Path)) :
    done (first ++ second) = done first ++ done second :=
  List.map_append

theorem take_done (effects : List (Effect Path)) (count : Nat) :
    (done effects).take count = done (effects.take count) :=
  List.map_take.symm

def logEffects (txId : UInt64) (ops : List JournalOp) : List (Effect Path) :=
  ops.map fun op => .append journalPath (JournalRecord.mk txId op).toBytes

def transactionEffects (txId : UInt64) (op : JournalOp) : List (Effect Path) :=
  logEffects txId [.txBegin, op, .txCommit]

def saveEffects (manifest : Manifest) : List (Effect Path) :=
  [.write manifestTmpPath manifest.serialize, .rename manifestTmpPath manifestPath]

def removeEffects (ids : List UInt64) : List (Effect Path) :=
  ids.map fun segmentId => .remove (segmentPath segmentId)

/-- A transaction, the file moved into place, the manifest saved and superseded files removed. -/
def installEffects (txId : UInt64) (op : JournalOp) (source : Path)
    (segmentId : UInt64) (manifest : Manifest)
    (ids : List UInt64) : List (Effect Path) :=
  transactionEffects txId op ++
    (.rename source (segmentPath segmentId) :: (saveEffects manifest ++ removeEffects ids))

section Parts

variable {disk : Disk Path}

theorem writeTransaction_exec (txId : UInt64) (op : JournalOp)
    (disk : Disk Path) (catalog : Catalog) :
    (writeTransaction ⟨some journalPath⟩ txId op).exec [] disk catalog =
      ⟨.ok (), applyAll disk (done (transactionEffects txId op)), catalog, [],
        done (transactionEffects txId op)⟩ := rfl

theorem saveManifest_exec (disk : Disk Path) (catalog : Catalog) :
    saveManifest.exec [] disk catalog =
      ⟨.ok (), applyAll disk (done (saveEffects catalog.manifest)), catalog, [],
      done (saveEffects catalog.manifest)⟩ := rfl

theorem removeFiles_exec (ids : List UInt64) (disk : Disk Path) (catalog : Catalog) :
    (removeFiles ids).exec [] disk catalog =
      ⟨.ok (), applyAll disk (done (removeEffects ids)), catalog, [],
        done (removeEffects ids)⟩ := by
  induction ids generalizing disk with
  | nil => rfl
  | cons segmentId rest ih =>
    rw [removeFiles, Prog.exec_act, List.headD_nil, List.tail_nil, ih]
    rfl

theorem renameFile_exec {source : Path} (target : Path)
    (present : (disk source).isSome) (catalog : Catalog) :
    (renameFile source target).exec [] disk catalog =
      ⟨.ok true, applyAll disk (done [.rename source target]), catalog, [],
        done [.rename source target]⟩ := by
  have there : ¬ (disk source).isNone = true := by
    rw [Option.isNone_iff_eq_none]
    rintro none
    rw [none] at present
    cases present
  rw [renameFile, Prog.exec_files, if_neg there]
  rfl

theorem renameFile_absent {source : Path} (target : Path)
    (absent : disk source = none) (catalog : Catalog) :
    (renameFile source target).exec [] disk catalog = ⟨.ok false, disk, catalog, [], []⟩ := by
  rw [renameFile, Prog.exec_files, if_pos (by rw [absent]; rfl)]
  rfl

theorem exec_updateManifest {α : Type} (update : Manifest → Manifest)
    (rest : Unit → CatalogM α) (reports : List Report)
    (disk : Disk Path) (catalog : Catalog) :
    (updateManifest update >>= rest).exec reports disk catalog =
      (rest ()).exec reports disk { catalog with manifest := update catalog.manifest } := rfl

theorem exec_lift_ok {α β : Type} (value : α) (rest : α → CatalogM β)
    (reports : List Report) (disk : Disk Path)
    (catalog : Catalog) :
    (Prog.lift (.ok value) >>= rest).exec reports disk catalog =
      (rest value).exec reports disk catalog := rfl

/-- The journal is only appended to: files under other paths stay. -/
theorem log_frame {path : Path} (apart : path ≠ journalPath) (txId : UInt64)
    (ops : List JournalOp) (disk : Disk Path) :
    applyAll disk (done (logEffects txId ops)) path = disk path := by
  induction ops generalizing disk with
  | nil => rfl
  | cons op rest ih =>
    change applyAll (Function.update disk journalPath _) (done (logEffects txId rest)) path = _
    rw [ih, Function.update_of_ne apart]

theorem log_journal {disk : Disk Path} {file : Bytes}
    (there : disk journalPath = some file) (txId : UInt64)
    (ops : List JournalOp) :
    applyAll disk (done (logEffects txId ops)) journalPath =
      some (file ++ (ops.map (JournalRecord.mk txId)).flatMap JournalRecord.toBytes) := by
  induction ops generalizing disk file with
  | nil => rw [List.map_nil, List.flatMap_nil, List.append_nil]; exact there
  | cons op rest ih =>
    have here : (Function.update disk journalPath (some ((disk journalPath).getD [] ++
        (JournalRecord.mk txId op).toBytes)) : Disk Path) journalPath = some
          (file ++ (JournalRecord.mk txId op).toBytes) := by
      rw [Function.update_self, there, Option.getD_some]
    have later := ih here
    rw [List.map_cons, List.flatMap_cons, ← List.append_assoc]
    exact later

end Parts

/-- The manifest with the ids of a commit taken. -/
def takeIds (manifest : Manifest) : Manifest :=
  { manifest with nextTxId := manifest.nextTxId + 1, nextSegmentId := manifest.nextSegmentId + 1 }

/-- The manifest after a transaction that removes some segments and adds one. -/
def installManifest (manifest : Manifest) (ids : List UInt64) (entry : SegmentMeta) : Manifest :=
  (ids.foldl Manifest.removeSegment (takeIds manifest)).addSegment entry

/-- The entry, the manifest and the effects of a commit. -/
def commitEntry (manifest : Manifest) (entry : SegmentMeta) : SegmentMeta :=
  committedMeta entry manifest.nextSegmentId

def commitManifest (manifest : Manifest) (entry : SegmentMeta) : Manifest :=
  installManifest manifest [] (commitEntry manifest entry)

def commitEffects (manifest : Manifest) (tempPath : Path) (entry : SegmentMeta) :
    List (Effect Path) :=
  installEffects manifest.nextTxId
    (.addSegment (commitEntry manifest entry)) tempPath manifest.nextSegmentId
    (commitManifest manifest entry) []

theorem commitSegment_exec {tempPath : Path} {entry : SegmentMeta}
    {disk : Disk Path} {catalog : Catalog}
    (opened : catalog.journal = ⟨some journalPath⟩) (apart : tempPath ≠ journalPath)
    (present : (disk tempPath).isSome) :
    (commitSegment tempPath entry).exec [] disk catalog =
      ⟨.ok (segmentPath catalog.manifest.nextSegmentId),
        applyAll disk (done (commitEffects catalog.manifest tempPath entry)),
        { catalog with manifest := commitManifest catalog.manifest entry }, [],
        done (commitEffects catalog.manifest tempPath entry)⟩ := by
  obtain ⟨manifest, journal⟩ := catalog
  subst opened
  rw [commitSegment, Prog.exec_fetch]
  dsimp only
  rw [exec_updateManifest, Prog.exec_bind_ok (writeTransaction_exec ..),
    Prog.exec_bind_ok (renameFile_exec _ _ _)]
  · rfl
  · rwa [transactionEffects, log_frame apart]

/-- Without the temporary file, the commit fails after its transaction is journalled. -/
theorem commitSegment_absent {tempPath : Path} {entry : SegmentMeta}
    {disk : Disk Path} {catalog : Catalog}
    (opened : catalog.journal = ⟨some journalPath⟩) (apart : tempPath ≠ journalPath)
    (absent : disk tempPath = none) :
    (commitSegment tempPath entry).exec [] disk catalog =
      ⟨.error (.status ⟨.fileRenameFailed, "Failed to move segment into catalog"⟩),
        applyAll disk (done (transactionEffects catalog.manifest.nextTxId
          (.addSegment (commitEntry catalog.manifest entry)))),
        { catalog with manifest := takeIds catalog.manifest }, [],
        done (transactionEffects catalog.manifest.nextTxId
          (.addSegment (commitEntry catalog.manifest entry)))⟩ := by
  obtain ⟨manifest, journal⟩ := catalog
  subst opened
  rw [commitSegment, Prog.exec_fetch]
  dsimp only
  rw [exec_updateManifest, Prog.exec_bind_ok (writeTransaction_exec ..),
    Prog.exec_bind_ok (renameFile_absent _ _ _)]
  · rfl
  · rwa [transactionEffects, log_frame apart]

/-- The pure part of a compaction that goes through: the events found, the file made of them and
the entry for it. -/
structure Compacts (host : Host) (disk : Disk Path) (manifest : Manifest) (ids : List UInt64)
    (events : List CanonicalEvent) (file : Bytes) (entry : SegmentMeta) : Prop where
  listed : ids ≠ []
  collected : collectEvents disk manifest ids = .ok events
  nonempty : events ≠ []
  written : ∃ fresh writer,
    SegmentWriter.new manifest.nextSegmentId (host.order.sort events).length = .ok fresh ∧
    fresh.addEvents (host.order.sort events) = .ok writer ∧
      writer.writeToFile host.memory = .ok file
  opened : ∃ reader, SegmentReader.openFile (some file) = .ok reader ∧
    entry = compactedMeta manifest.nextSegmentId
      (host.order.sort events) file.length reader.schemaHash

def compactEffects (manifest : Manifest) (ids : List UInt64) (file : Bytes) (entry : SegmentMeta) :
    List (Effect Path) :=
  .write (compactTmpPath manifest.nextSegmentId) file ::
    installEffects manifest.nextTxId (.compactSegments ids [entry])
      (compactTmpPath manifest.nextSegmentId)
      manifest.nextSegmentId (installManifest manifest ids entry) ids

/-- The manifest with only the segment id of a compaction taken. -/
def takeSegmentId (manifest : Manifest) : Manifest :=
  { manifest with nextSegmentId := manifest.nextSegmentId + 1 }

/-- A compaction that ends before its transaction: at most the temporary file is touched and at
most a segment id is used up. It returns only if it found nothing to merge. -/
structure Quiet (disk : Disk Path) (catalog : Catalog) (ids : List UInt64)
    (run : Prog.Run Path Catalog Stop (List UInt64)) : Prop where
  performed : ∃ effects, run.performed = done effects ∧ (effects = [] ∨
    (∃ file, effects = [.write (compactTmpPath catalog.manifest.nextSegmentId) file]) ∨
    effects = [.remove (compactTmpPath catalog.manifest.nextSegmentId)])
  state : run.state = catalog ∨
    run.state = { catalog with manifest := takeSegmentId catalog.manifest }
  returned : ∀ created, run.outcome = .ok created → run = ⟨.ok [], disk, catalog, [], []⟩ ∧
    (ids = [] ∨ collectEvents disk catalog.manifest ids = .ok [])

theorem compactTmpPath_ne_journal (segmentId : UInt64) : compactTmpPath segmentId ≠ journalPath :=
  (foreign_of_isTemporary (isTemporary_compactTmpPath segmentId)).journal

theorem writeCompacted_exec {host : Host} {writer : SegmentWriter} {file : Bytes}
    (written : writer.writeToFile host.memory = .ok file) (path : Path)
    (disk : Disk Path) (catalog : Catalog) :
    (writeCompacted host writer path).exec [] disk catalog =
      ⟨.ok (), applyAll disk (done [.write path file]), catalog, [], done [.write path file]⟩ := by
  rw [writeCompacted, written]
  rfl

theorem installCompacted_exec {disk : Disk Path} {entry : SegmentMeta} (ids : List UInt64)
    (present : (disk (compactTmpPath entry.segmentId)).isSome) (catalog : Catalog) :
    (installCompacted ids entry).exec [] disk catalog =
      ⟨.ok (), applyAll disk
        (done (.rename (compactTmpPath entry.segmentId) (segmentPath entry.segmentId) ::
          (saveEffects ((ids.foldl Manifest.removeSegment catalog.manifest).addSegment entry) ++
            removeEffects ids))),
        { catalog with manifest := (ids.foldl Manifest.removeSegment
          catalog.manifest).addSegment entry }, [],
        done (.rename (compactTmpPath entry.segmentId) (segmentPath entry.segmentId) ::
          (saveEffects ((ids.foldl Manifest.removeSegment catalog.manifest).addSegment entry) ++
            removeEffects ids))⟩ := by
  rw [installCompacted, Prog.exec_bind_ok (renameFile_exec _ present _)]
  simp only [Bool.not_true, Bool.false_eq_true, if_false]
  rw [exec_updateManifest, Prog.exec_bind_ok (saveManifest_exec ..), removeFiles_exec]
  rfl

theorem compactSegments_exec {host : Host} {disk : Disk Path}
    {catalog : Catalog} {ids : List UInt64}
    {events : List CanonicalEvent} {file : Bytes} {entry : SegmentMeta}
    (opened : catalog.journal = ⟨some journalPath⟩)
      (compacts : Compacts host disk catalog.manifest ids events file entry) :
    (compactSegments host ids).exec [] disk catalog =
      ⟨.ok [catalog.manifest.nextSegmentId],
        applyAll disk (done (compactEffects catalog.manifest ids file entry)),
        { catalog with manifest := installManifest catalog.manifest ids entry }, [],
        done (compactEffects catalog.manifest ids file entry)⟩ := by
  obtain ⟨manifest, journal⟩ := catalog
  subst opened
  obtain ⟨listed, collected, nonempty, ⟨fresh, writer, created, added, written⟩,
    ⟨reader, read, same⟩⟩ := compacts
  have named : entry.segmentId = manifest.nextSegmentId := by rw [same]; rfl
  have there : applyAll disk (done [.write (compactTmpPath manifest.nextSegmentId) file])
      (compactTmpPath manifest.nextSegmentId) = some file := Function.update_self ..
  dsimp only at *
  rw [compactSegments, if_neg listed, Prog.exec_fetch, Prog.exec_files]
  dsimp only
  rw [collected, exec_lift_ok, if_neg nonempty, exec_updateManifest, created, exec_lift_ok, added,
    exec_lift_ok, Prog.exec_bind_ok (writeCompacted_exec written ..), Prog.exec_files, there, read,
    exec_lift_ok, Prog.exec_fetch, Option.getD_some, ← same]
  dsimp only
  rw [exec_updateManifest, Prog.exec_bind_ok (writeTransaction_exec ..),
    Prog.exec_bind_ok (installCompacted_exec _ _ _), compactEffects, installEffects, named,
    Prog.exec_pure]
  · simp only [Prog.Run.behind, List.append_nil]
    rfl
  · rw [transactionEffects, log_frame (compactTmpPath_ne_journal _), named, there]
    rfl

theorem compactSegments_cases (host : Host) (disk : Disk Path)
    {catalog : Catalog} (ids : List UInt64)
    (opened : catalog.journal = ⟨some journalPath⟩) :
    (∃ events file entry, Compacts host disk catalog.manifest ids events file entry) ∨
      Quiet disk catalog ids ((compactSegments host ids).exec [] disk catalog) := by
  obtain ⟨manifest, journal⟩ := catalog
  subst opened
  by_cases listed : ids = []
  · rw [compactSegments, if_pos listed]
    exact .inr ⟨⟨[], rfl, .inl rfl⟩, .inl rfl, fun _ _ => ⟨rfl, .inl listed⟩⟩
  rw [compactSegments, if_neg listed, Prog.exec_fetch, Prog.exec_files]
  dsimp only
  cases collected : collectEvents disk manifest ids with
  | error stop => exact .inr ⟨⟨[], rfl, .inl rfl⟩, .inl rfl, fun _ failed => by cases failed⟩
  | ok events =>
    rw [exec_lift_ok]
    by_cases nonempty : events = []
    · rw [if_pos nonempty]
      exact .inr ⟨⟨[], rfl, .inl rfl⟩, .inl rfl, fun _ _ => ⟨rfl, .inr (nonempty ▸ collected)⟩⟩
    rw [if_neg nonempty, exec_updateManifest]
    dsimp only
    cases created : SegmentWriter.new manifest.nextSegmentId (host.order.sort events).length with
    | error stop => exact .inr ⟨⟨[], rfl, .inl rfl⟩, .inr rfl, fun _ failed => by cases failed⟩
    | ok fresh =>
      rw [exec_lift_ok]
      cases added : fresh.addEvents (host.order.sort events) with
      | error stop => exact .inr ⟨⟨[], rfl, .inl rfl⟩, .inr rfl, fun _ failed => by cases failed⟩
      | ok writer =>
        rw [exec_lift_ok]
        cases written : writer.writeToFile host.memory with
        | error stop =>
          refine .inr ?_
          cases stop with
          | status status =>
            rw [writeCompacted, written]
            exact ⟨⟨[.remove (compactTmpPath manifest.nextSegmentId)], rfl, .inr (.inr rfl)⟩,
              .inr rfl, fun _ failed => by
              cases failed⟩
          | fault =>
            rw [writeCompacted, written]
            exact ⟨⟨[], rfl, .inl rfl⟩, .inr rfl, fun _ failed => by cases failed⟩
          | terminate =>
            rw [writeCompacted, written]
            exact ⟨⟨[], rfl, .inl rfl⟩, .inr rfl, fun _ failed => by cases failed⟩
        | ok file =>
          have there : applyAll disk (done [.write (compactTmpPath manifest.nextSegmentId) file])
              (compactTmpPath manifest.nextSegmentId) = some file := Function.update_self ..
          rw [Prog.exec_bind_ok (writeCompacted_exec written ..), Prog.exec_files, there]
          cases read : SegmentReader.openFile (some file) with
          | error stop =>
            exact .inr ⟨⟨[.write (compactTmpPath manifest.nextSegmentId) file], rfl,
              .inr (.inl ⟨file, rfl⟩)⟩, .inr rfl,
              fun _ failed => by cases failed⟩
          | ok reader =>
            exact .inl ⟨events, file, _, listed, collected, nonempty,
              ⟨fresh, writer, created, added, written⟩,
              ⟨reader, read, rfl⟩⟩

theorem removeEffects_segment (ids : List UInt64) (disk : Disk Path) (segmentId : UInt64) :
    applyAll disk (done (removeEffects ids)) (segmentPath segmentId) =
      if segmentId ∈ ids then none else disk (segmentPath segmentId) := by
  induction ids generalizing disk with
  | nil => simp [removeEffects, done]
  | cons removed rest ih =>
    change applyAll (Function.update disk (segmentPath removed) none)
      (done (removeEffects rest)) _ = _
    rw [ih]
    by_cases later : segmentId ∈ rest
    · rw [if_pos later, if_pos (List.mem_cons_of_mem _ later)]
    · rw [if_neg later]
      by_cases here : segmentId = removed
      · rw [if_pos (by simp [here]), here, Function.update_self]
      · rw [if_neg (by simp [here, later]),
          Function.update_of_ne (fun same => here (segmentPath_inj.mp same))]

theorem removeEffects_other {path : Path} (other : ∀ segmentId, path ≠ segmentPath segmentId)
    (ids : List UInt64)
    (disk : Disk Path) : applyAll disk (done (removeEffects ids)) path = disk path := by
  induction ids generalizing disk with
  | nil => rfl
  | cons removed rest ih =>
    change applyAll (Function.update disk (segmentPath removed) none)
      (done (removeEffects rest)) path = _
    rw [ih, Function.update_of_ne (other removed)]

theorem save_frame {path : Path} (notTmp : path ≠ manifestTmpPath)
    (notManifest : path ≠ manifestPath)
    (manifest : Manifest) (disk : Disk Path) :
    applyAll disk (done (saveEffects manifest)) path = disk path := by
  simp only [saveEffects, done, List.map_cons, List.map_nil, applyAll_cons, applyAll_nil,
    Effect.after_done, Effect.apply, Function.update_self, Function.update_of_ne notTmp,
    Function.update_of_ne notManifest]

theorem save_manifest (manifest : Manifest) (disk : Disk Path) :
    applyAll disk (done (saveEffects manifest)) manifestPath = some manifest.serialize := by
  simp only [saveEffects, done, List.map_cons, List.map_nil, applyAll_cons, applyAll_nil,
    Effect.after_done, Effect.apply, Function.update_self]

section Cut

variable {disk : Disk Path} {file contents : Bytes} {txId segmentId : UInt64}
  {op : JournalOp} {source : Path}
  {manifest : Manifest} {ids : List UInt64}

/-- What the first `count` effects of an installation leave in the durable files. -/
theorem install_observed {count : Nat} (there : disk journalPath = some file)
    (foreign : Foreign source)
    (found : 4 ≤ count → disk source = some contents) :
    applyAll disk
      ((done (installEffects txId op source segmentId manifest ids)).take count) journalPath =
        some (file ++ (([.txBegin, op, .txCommit].take count).map
          (JournalRecord.mk txId)).flatMap JournalRecord.toBytes) ∧
      applyAll disk
        ((done (installEffects txId op source segmentId manifest ids)).take count) manifestPath =
        (if count < 6 then disk manifestPath else some manifest.serialize) ∧
      ∀ asked, applyAll disk
        ((done (installEffects txId op source segmentId manifest ids)).take count)
          (segmentPath asked) =
        if count < 4 then disk (segmentPath asked)
        else if asked ∈ ids.take (count - 6) then none
        else if asked = segmentId then some contents else disk (segmentPath asked) := by
  by_cases early : count ≤ 3
  · have logged : (done (installEffects txId op source segmentId manifest ids)).take count =
        done (logEffects txId ([.txBegin, op, .txCommit].take count)) := by
      rw [installEffects, done_append,
        List.take_append_of_le_length (by simpa [done, transactionEffects, logEffects]), take_done,
        transactionEffects, logEffects, logEffects, List.map_take]
    rw [logged]
    refine ⟨log_journal there txId _, ?_, ?_⟩
    · rw [if_pos (by omega), log_frame manifest_ne_journal]
    · intro asked
      rw [if_pos (by omega), log_frame (segmentPath_ne_journal asked)]
  · obtain ⟨rest, rfl⟩ : ∃ rest, count = 4 + rest := ⟨count - 4, by omega⟩
    -- The disk once the file is in place.
    generalize logged : applyAll disk (done (transactionEffects txId op)) = middle
    have journal : middle journalPath = some (file ++
        ([.txBegin, op, .txCommit].map (JournalRecord.mk txId)).flatMap JournalRecord.toBytes) := by
      rw [← logged, transactionEffects, log_journal there]
    have others : ∀ path, path ≠ journalPath → middle path = disk path := fun path apart => by
      rw [← logged, transactionEffects, log_frame apart]
    have moved : applyAll disk
        ((done (installEffects txId op source segmentId manifest ids)).take (4 + rest)) =
        applyAll (Function.update (Function.update middle source none)
          (segmentPath segmentId) (some contents))
          ((done (saveEffects manifest ++ removeEffects ids)).take rest) := by
      have renamed : (Effect.rename source (segmentPath segmentId)).apply middle =
          Function.update (Function.update middle source none)
            (segmentPath segmentId) (some contents) := by
        rw [Effect.apply, others source foreign.journal, found (by omega)]
      have front : (done (transactionEffects txId op)).length = 3 := rfl
      rw [installEffects, done_append, List.take_append, List.take_of_length_le (by omega), front,
        applyAll_append, logged, show 4 + rest - 3 = rest + 1 by omega]
      change applyAll ((Effect.rename source (segmentPath segmentId)).apply middle) _ = _
      rw [renamed]
      rfl
    generalize placed : Function.update (Function.update middle source none)
      (segmentPath segmentId) (some contents) =
      after at moved
    have afterJournal : after journalPath = middle journalPath := by
      rw [← placed, Function.update_of_ne (segmentPath_ne_journal _).symm,
        Function.update_of_ne foreign.journal.symm]
    have afterManifest : after manifestPath = disk manifestPath := by
      rw [← placed, Function.update_of_ne (segmentPath_ne_manifest _).symm,
        Function.update_of_ne foreign.manifest.symm, others _ manifest_ne_journal]
    have afterSegment : ∀ asked, after (segmentPath asked) =
        if asked = segmentId then some contents else disk (segmentPath asked) := by
      intro asked
      rw [← placed]
      by_cases here : asked = segmentId
      · rw [if_pos here, here, Function.update_self]
      · rw [if_neg here, Function.update_of_ne fun same => here (segmentPath_inj.mp same),
          Function.update_of_ne (foreign.segment asked).symm,
          others _ (segmentPath_ne_journal asked)]
    rw [moved, List.take_of_length_le (show [JournalOp.txBegin, op,
      .txCommit].length ≤ 4 + rest by simp; omega), ← journal, ← afterJournal]
    simp only [show ¬ 4 + rest < 4 by omega, if_false, show 4 + rest < 6 ↔ rest < 2 by omega,
      show 4 + rest - 6 = rest - 2 by omega]
    have tmpForeign : Foreign manifestTmpPath := foreign_of_isTemporary (by decide)
    rcases rest with _ | _ | more
    · refine ⟨rfl, afterManifest, fun asked => ?_⟩
      rw [if_neg (by simp)]
      exact afterSegment asked
    · have one : applyAll after ((done (saveEffects manifest ++ removeEffects ids)).take 1) =
          Function.update after manifestTmpPath (some manifest.serialize) := rfl
      rw [one]
      refine ⟨Function.update_of_ne tmpForeign.journal.symm _ _, ?_, fun asked => ?_⟩
      · rw [if_pos (by decide), ← afterManifest]
        exact Function.update_of_ne tmpForeign.manifest.symm _ _
      · rw [if_neg (by simp), Function.update_of_ne (tmpForeign.segment asked).symm]
        exact afterSegment asked
    · have removing : applyAll after
          ((done (saveEffects manifest ++ removeEffects ids)).take (more + 2)) =
          applyAll (applyAll after (done (saveEffects manifest)))
            (done (removeEffects (ids.take more))) := by
        have front : (done (saveEffects manifest)).length = 2 := rfl
        rw [done_append, List.take_append, List.take_of_length_le (by omega), front,
          applyAll_append, Nat.add_sub_cancel, take_done, removeEffects, removeEffects,
          List.map_take]
      rw [removing, removeEffects_other (fun x => (segmentPath_ne_journal x).symm),
        removeEffects_other (fun x => (segmentPath_ne_manifest x).symm), save_manifest,
        save_frame tmpForeign.journal.symm manifest_ne_journal.symm, if_neg (by omega),
        show more + 1 + 1 - 2 = more by omega]
      refine ⟨rfl, rfl, fun asked => ?_⟩
      rw [removeEffects_segment,
        save_frame (tmpForeign.segment asked).symm (segmentPath_ne_manifest asked), afterSegment]

end Cut

/-- The files once the temporary ones are gone. -/
def swept (disk : Disk Path) : Disk Path := (Effect.sweep isTemporary).apply disk

theorem swept_of_not {path : Path} (kept : isTemporary path = false)
    (disk : Disk Path) : swept disk path = disk path := by
  simp [swept, Effect.apply, kept]

def openEffects (manifest : Manifest) (journalled : Bool) (now : UInt64) : List (Effect Path) :=
  .mkdir :: .sweep isTemporary :: (saveEffects manifest ++ (.create journalPath ::
    if journalled then [] else [.append journalPath (JournalHeader.toBytes now)]))

theorem recover_exec (catalog : Catalog) {disk : Disk Path} {manifest : Manifest}
    (result : recovered (swept disk) catalog.manifest = .ok manifest) :
    recover.exec [] disk catalog =
      ⟨.ok (), applyAll disk (done (.sweep isTemporary :: saveEffects manifest)),
        { catalog with manifest }, [],
        done (.sweep isTemporary :: saveEffects manifest)⟩ := by
  rw [recover, Prog.exec_act, List.headD_nil, List.tail_nil, Effect.after_done, Prog.exec_files,
    Prog.exec_fetch, ← swept, result, exec_lift_ok]
  rfl

theorem recover_stops (catalog : Catalog) {disk : Disk Path} {stop : Stop}
    (result : recovered (swept disk) catalog.manifest = .error stop) :
    recover.exec [] disk catalog =
      ⟨.error stop, swept disk, catalog, [], done [.sweep isTemporary]⟩ := by
  rw [recover, Prog.exec_act, List.headD_nil, List.tail_nil, Effect.after_done, Prog.exec_files,
    Prog.exec_fetch, ← swept, result]
  rfl

theorem openJournal_exec (now : UInt64) (disk : Disk Path) (catalog : Catalog) :
    (openFile journalPath now).exec [] disk catalog =
      ⟨.ok (.ok ⟨some journalPath⟩), applyAll disk (done (.create journalPath ::
          if (disk journalPath).isSome then
            [] else [.append journalPath (JournalHeader.toBytes now)])), catalog, [],
        done (.create journalPath ::
          if (disk journalPath).isSome then
            [] else [.append journalPath (JournalHeader.toBytes now)])⟩ := by
  rw [openFile, Prog.exec_files, Prog.exec_act, List.headD_nil, List.tail_nil]
  simp only [Report.took, if_true]
  by_cases there : (disk journalPath).isSome
  · rw [if_pos there, if_pos there]
    rfl
  · rw [if_neg there, if_neg there]
    rfl

theorem openCatalog_exec {disk : Disk Path} {manifest : Manifest} (now : UInt64)
    (result : recovered (swept disk) {} = .ok manifest) :
    (openCatalog now).exec [] disk {} =
      ⟨.ok (), applyAll disk (done (openEffects manifest (disk journalPath).isSome now)),
        { manifest, journal := ⟨some journalPath⟩ }, [],
          done (openEffects manifest (disk journalPath).isSome now)⟩ := by
  have there : applyAll disk (done (.sweep isTemporary :: saveEffects manifest)) journalPath =
      disk journalPath := by
    change applyAll (swept disk) (done (saveEffects manifest)) journalPath = _
    rw [save_frame (by decide) (by decide), swept_of_not (by decide)]
  rw [openCatalog, Prog.exec_act, List.headD_nil, List.tail_nil,
    Effect.after_done, Effect.apply_mkdir]
  simp only [Report.took, Bool.not_true, Bool.false_eq_true, if_false]
  rw [Prog.exec_bind_ok (recover_exec ({}) result),
    Prog.exec_bind_ok (openJournal_exec ..), there, openEffects]
  cases (disk journalPath).isSome <;> rfl

theorem openCatalog_stops {disk : Disk Path} {stop : Stop} (now : UInt64)
    (result : recovered (swept disk) {} = .error stop) :
    (openCatalog now).exec [] disk {} =
      ⟨.error stop, swept disk, {}, [], done [.mkdir, .sweep isTemporary]⟩ := by
  rw [openCatalog, Prog.exec_act, List.headD_nil, List.tail_nil,
    Effect.after_done, Effect.apply_mkdir]
  simp only [Report.took, Bool.not_true, Bool.false_eq_true, if_false]
  rw [Prog.exec_bind_error (recover_stops ({}) result)]
  rfl

end VectorTick.Catalog
