import VectorTick.Storage.Journal
import VectorTick.Storage.SegmentReader
import VectorTick.Storage.SegmentWriter

/-! The catalog: recovery, commits and compaction over the files of its directory.

Every file operation that can fail is an effect with a report. Reading a file of the directory
does not fail. The files a call reads between two effects are read in one view, since nothing
changes them in between.
-/

set_option autoImplicit false

namespace VectorTick

open Foundation Vts1

/-- A file of the catalog's directory under its name, or a file elsewhere. -/
inductive Path where
  | root (name : Bytes)
  | other (path : Bytes)
  deriving DecidableEq, Repr

/-- `std::to_string`. -/
def decimal (number : UInt64) : Bytes :=
  (Nat.toDigits 10 number.toNat).map fun digit => UInt8.ofNat digit.toNat

def segmentName (segmentId : UInt64) : Bytes :=
  nameBytes "segment_" ++ (decimal segmentId ++ nameBytes ".vts")

def manifestPath : Path := .root (nameBytes "manifest.vtm")

def manifestTmpPath : Path := .root (nameBytes "manifest.vtm" ++ nameBytes ".tmp")

def journalPath : Path := .root (nameBytes "journal.vtwal")

def segmentPath (segmentId : UInt64) : Path := .root (segmentName segmentId)

def compactTmpPath (segmentId : UInt64) : Path :=
  .root (nameBytes ".tmp_compact_" ++ (decimal segmentId ++ nameBytes ".vts"))

/-- `filename.find(needle) != npos`. -/
def contains (needle : Bytes) : Bytes → Bool
  | [] => needle.isEmpty
  | byte :: rest => needle.isPrefixOf (byte :: rest) || contains needle rest

def isTemporary : Path → Bool
  | .root name => contains (nameBytes ".tmp") name
  | .other _ => false

def eventLess (a b : CanonicalEvent) : Bool :=
  if a.exchangeTsNs ≠ b.exchangeTsNs then a.exchangeTsNs < b.exchangeTsNs
    else a.sequence < b.sequence

/-- `std::sort` under that order, which leaves the order of equal keys open. -/
structure EventSort where
  sort : List CanonicalEvent → List CanonicalEvent
  perm : ∀ events, (sort events).Perm events
  sorted : ∀ events, (sort events).Pairwise fun a b => eventLess b a = false

structure Host where
  memory : Allocator
  order : EventSort

structure Catalog where
  manifest : Manifest := {}
  journal : Journal Path := {}

abbrev CatalogM (α : Type) : Type := Prog Path Catalog Stop α

namespace Manifest

/-- `save_atomic` to a path, by way of a temporary file beside it. -/
def saveAtomic {π σ : Type} (manifest : Manifest) (path tmpPath : π) :
    Prog π σ Stop (Except Status Unit) := do
  match ← Prog.act (.write tmpPath manifest.serialize) with
  | .refused => return .error ⟨.fileOpenFailed, "Failed to create manifest temp file"⟩
  | .unwritten =>
    let _ ← Prog.act (.remove tmpPath)
    return .error ⟨.fileWriteFailed, "Failed writing manifest data"⟩
  | .unsynced =>
    let _ ← Prog.act (.remove tmpPath)
    return .error ⟨.fileSyncFailed, "Failed to fsync manifest temp file"⟩
  | .done =>
    let report ← Prog.act (.rename tmpPath path)
    if report.took then
      return .ok ()
    let _ ← Prog.act (.remove tmpPath)
    return .error ⟨.fileRenameFailed, "Failed to atomically rename manifest file"⟩

end Manifest

namespace Catalog

def activeSegments (catalog : Catalog) : List SegmentMeta := catalog.manifest.activeSegments

def findSegmentsByTime (catalog : Catalog) (minTs maxTs : UInt64) : List SegmentMeta :=
  catalog.manifest.segments.filter fun seg =>
    seg.active && (seg.maxExchangeTs ≥ minTs && seg.minExchangeTs ≤ maxTs)

def findSegmentsBySequence (catalog : Catalog) (minSeq maxSeq : UInt64) : List SegmentMeta :=
  catalog.manifest.segments.filter fun seg =>
    seg.active && (seg.maxSeq ≥ minSeq && seg.minSeq ≤ maxSeq)

def answer {α : Type} : Except Stop α → Except Stop (Option α)
  | .ok value => .ok (some value)
  | .error (.status _) => .ok none
  | .error stop => .error stop

def replayAdd (disk : Disk Path) (manifest : Manifest) (entry : SegmentMeta) : Manifest :=
  if (disk (.root entry.filename)).isSome then
    let manifest := manifest.addSegment entry
    if entry.segmentId ≥ manifest.nextSegmentId then
      { manifest with nextSegmentId := entry.segmentId + 1 } else manifest
  else manifest

def replayTx (disk : Disk Path) (manifest : Manifest) (tx : Journal.RecoveredTx) : Manifest :=
  if !tx.committed then manifest
  else
    let manifest := tx.addedSegments.foldl (replayAdd disk) manifest
    let manifest := tx.removedSegments.foldl Manifest.removeSegment manifest
    if tx.txId ≥ manifest.nextTxId then { manifest with nextTxId := tx.txId + 1 } else manifest

def replay (disk : Disk Path) (manifest : Manifest) (txs : List Journal.RecoveredTx) : Manifest :=
  txs.foldl (replayTx disk) manifest

def segmentValid (found : Option Bytes) : Except Stop Bool := do
  match ← answer (SegmentReader.openFile found) with
  | none => return false
  | some reader => return (← answer reader.validate).isSome

def validateSegment (disk : Disk Path) (seg : SegmentMeta) : Except Stop SegmentMeta := do
  if !seg.active then
    return seg
  let found := disk (.root seg.filename)
  if found.isNone then
    return { seg with active := false }
  if ← segmentValid found then
    return seg
  return { seg with active := false }

def validateSegments (disk : Disk Path) : List SegmentMeta → Except Stop (List SegmentMeta)
  | [] => .ok []
  | seg :: rest => do
    let seg ← validateSegment disk seg
    let rest ← validateSegments disk rest
    return seg :: rest

def loadManifest (disk : Disk Path) (manifest : Manifest) : Manifest :=
  if (disk manifestPath).isSome then (manifest.load (disk manifestPath)).1 else manifest

def journalTxs (disk : Disk Path) : Except Stop (List Journal.RecoveredTx) :=
  if (disk journalPath).isSome then do
    let txs ← answer (Journal.readAll (disk journalPath))
    return txs.getD []
  else .ok []

def recovered (disk : Disk Path) (manifest : Manifest) : Except Stop Manifest := do
  let txs ← journalTxs disk
  let manifest := replay disk (loadManifest disk manifest) txs
  let segments ← validateSegments disk manifest.segments
  return { manifest with segments }

def recover : CatalogM Unit := do
  let _ ← Prog.act (.sweep isTemporary)
  let disk ← Prog.files
  let catalog ← Prog.fetch
  let manifest ← Prog.lift (recovered disk catalog.manifest)
  Prog.store { catalog with manifest }
  orReturn (← manifest.saveAtomic manifestPath manifestTmpPath)

/-- `open`, at a given time. -/
def openCatalog (now : UInt64) : CatalogM Unit := do
  let report ← Prog.act .mkdir
  if !report.took then
    .stop (.status ⟨.directoryCreateFailed, "Failed to create catalog directory"⟩)
  recover
  let journal ← orReturn (← Journal.openFile journalPath now)
  let catalog ← Prog.fetch
  Prog.store { catalog with journal }

/-- `std::filesystem::rename`, which fails if there is nothing to rename. -/
def renameFile (source target : Path) : CatalogM Bool := do
  let disk ← Prog.files
  if (disk source).isNone then
    return false
  let report ← Prog.act (.rename source target)
  return report.took

def orAbort (journal : Journal Path) (txId : UInt64) (ended : Except Status Unit) : CatalogM Unit :=
  match ended with
  | .ok () => return ()
  | .error status => do
    let _ ← journal.appendAbort txId
    .stop (.status status)

def writeTransaction (journal : Journal Path) (txId : UInt64) (op : JournalOp) : CatalogM Unit := do
  orReturn (← journal.appendBegin txId)
  orAbort journal txId (← journal.writeRecord ⟨txId, op⟩)
  orAbort journal txId (← journal.appendCommit txId)

def updateManifest (update : Manifest → Manifest) : CatalogM Unit := do
  let catalog ← Prog.fetch
  Prog.store { catalog with manifest := update catalog.manifest }

def saveManifest : CatalogM Unit := do
  let catalog ← Prog.fetch
  orReturn (← catalog.manifest.saveAtomic manifestPath manifestTmpPath)

def committedMeta (entry : SegmentMeta) (segmentId : UInt64) : SegmentMeta :=
  { entry with segmentId, filename := segmentName segmentId, active := true }

/-- `commit_segment`; the value is the final path. -/
def commitSegment (tempPath : Path) (entry : SegmentMeta) : CatalogM Path := do
  let catalog ← Prog.fetch
  let txId := catalog.manifest.nextTxId
  let segmentId := catalog.manifest.nextSegmentId
  updateManifest fun manifest =>
    { manifest with nextTxId := txId + 1, nextSegmentId := segmentId + 1 }
  let entry := committedMeta entry segmentId
  writeTransaction catalog.journal txId (.addSegment entry)
  if !(← renameFile tempPath (segmentPath segmentId)) then
    .stop (.status ⟨.fileRenameFailed, "Failed to move segment into catalog"⟩)
  updateManifest (·.addSegment entry)
  saveManifest
  return segmentPath segmentId

def collectEvents (disk : Disk Path) (manifest : Manifest) :
    List UInt64 → Except Stop (List CanonicalEvent)
  | [] => .ok []
  | segmentId :: rest =>
    match manifest.findSegment segmentId with
    | none => collectEvents disk manifest rest
    | some seg => do
      let reader ← SegmentReader.openFile (disk (.root seg.filename))
      let events ← reader.readAllEvents
      let others ← collectEvents disk manifest rest
      return events ++ others

def writeAll (path : Path) (bytes : Bytes) : CatalogM (Except Status Unit) := do
  match ← Prog.act (.write path bytes) with
  | .done => return .ok ()
  | .refused => return .error ⟨.fileOpenFailed, "Failed to open file for writing"⟩
  | .unwritten => return .error ⟨.fileWriteFailed, "Failed to write file"⟩
  | .unsynced => return .error ⟨.fileSyncFailed, "Failed to sync file"⟩

/-- `write_to_file` of the compacted segment; after a failure the file is removed. -/
def writeCompacted (host : Host) (writer : SegmentWriter) (path : Path) : CatalogM Unit :=
  match writer.writeToFile host.memory with
  | .error (.status status) => do
    let _ ← Prog.act (.remove path)
    .stop (.status status)
  | .error stop => .stop stop
  | .ok bytes => do
    match ← writeAll path bytes with
    | .ok () => return ()
    | .error status =>
      let _ ← Prog.act (.remove path)
      .stop (.status status)

def compactedMeta (segmentId : UInt64) (sorted : List CanonicalEvent)
    (fileSize : Nat) (schemaHash : UInt32) :
    SegmentMeta where
  segmentId
  filename := segmentName segmentId
  minSeq := (sorted.head?.map (·.sequence)).getD 0
  maxSeq := (sorted.getLast?.map (·.sequence)).getD 0
  minExchangeTs := (sorted.head?.map (·.exchangeTsNs)).getD 0
  maxExchangeTs := (sorted.getLast?.map (·.exchangeTsNs)).getD 0
  rowCount := UInt64.ofNat sorted.length
  fileSizeBytes := UInt64.ofNat fileSize
  schemaHash
  dataCrc := 0
  isCompacted := true
  active := true

def removeFiles : List UInt64 → CatalogM Unit
  | [] => return ()
  | segmentId :: rest => do
    let _ ← Prog.act (.remove (segmentPath segmentId))
    removeFiles rest

/-- The part of `compact_segments` behind the transaction. -/
def installCompacted (ids : List UInt64) (entry : SegmentMeta) : CatalogM Unit := do
  if !(← renameFile (compactTmpPath entry.segmentId) (segmentPath entry.segmentId)) then
    .stop (.status ⟨.fileRenameFailed, "Failed to move compacted segment"⟩)
  updateManifest fun manifest => (ids.foldl Manifest.removeSegment manifest).addSegment entry
  saveManifest
  removeFiles ids

/-- `compact_segments`; the value is what is appended to the list of new segments. -/
def compactSegments (host : Host) (ids : List UInt64) : CatalogM (List UInt64) := do
  if ids = [] then
    return []
  let catalog ← Prog.fetch
  let disk ← Prog.files
  let events ← Prog.lift (collectEvents disk catalog.manifest ids)
  if events = [] then
    return []
  let sorted := host.order.sort events
  let segmentId := catalog.manifest.nextSegmentId
  updateManifest fun manifest => { manifest with nextSegmentId := segmentId + 1 }
  let fresh ← Prog.lift (SegmentWriter.new segmentId sorted.length)
  let writer ← Prog.lift (fresh.addEvents sorted)
  writeCompacted host writer (compactTmpPath segmentId)
  let disk ← Prog.files
  let reader ← Prog.lift (SegmentReader.openFile (disk (compactTmpPath segmentId)))
  let fileSize := ((disk (compactTmpPath segmentId)).getD []).length
  let entry := compactedMeta segmentId sorted fileSize reader.schemaHash
  let catalog ← Prog.fetch
  let txId := catalog.manifest.nextTxId
  updateManifest fun manifest => { manifest with nextTxId := txId + 1 }
  writeTransaction catalog.journal txId (.compactSegments ids [entry])
  installCompacted ids entry
  return [segmentId]

end Catalog

end VectorTick
