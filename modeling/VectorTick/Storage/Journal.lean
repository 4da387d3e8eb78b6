import VectorTick.Foundation.Effects
import VectorTick.Storage.Manifest

/-! The transaction journal: its records, the appends and the tolerant reader. -/

set_option autoImplicit false

namespace VectorTick

open Foundation Vts1

namespace JournalHeader

def magic : UInt32 := 0x57414C31

def size : Nat := 16

def toBytes (creationTs : UInt64) : Bytes := u32 magic ++ (u32 1 ++ u64 creationTs)

end JournalHeader

/-- What a record says, with its payload. -/
inductive JournalOp where
  | txBegin
  | addSegment (entry : SegmentMeta)
  | removeSegment (segmentId : UInt64)
  | compactSegments (oldIds : List UInt64) (newMetas : List SegmentMeta)
  | txCommit
  | txAbort
  deriving DecidableEq, Repr

namespace JournalOp

def type : JournalOp → UInt32
  | txBegin => 1
  | addSegment _ => 2
  | removeSegment _ => 3
  | compactSegments _ _ => 4
  | txCommit => 5
  | txAbort => 6

def payload : JournalOp → Bytes
  | txBegin | txCommit | txAbort => []
  | addSegment entry => entry.toBytes
  | removeSegment segmentId => u64 segmentId
  | compactSegments oldIds newMetas =>
    u32 (UInt32.ofNat oldIds.length) ++ (oldIds.flatMap u64 ++
      (u32 (UInt32.ofNat newMetas.length) ++ newMetas.flatMap SegmentMeta.toBytes))

end JournalOp

structure JournalRecord where
  txId : UInt64
  op : JournalOp
  deriving DecidableEq, Repr

namespace JournalRecord

/-- The payload size is handed on as `u32`, and so many bytes of the payload are written. -/
def payloadSize (record : JournalRecord) : UInt32 := UInt32.ofNat record.op.payload.length

def bodyBytes (record : JournalRecord) : Bytes :=
  u64 record.txId ++ (u32 record.op.type ++ (u32 record.payloadSize ++
    record.op.payload.take record.payloadSize.toNat))

def toBytes (record : JournalRecord) : Bytes :=
  record.bodyBytes ++ u32 (Crc32C.compute record.bodyBytes)

end JournalRecord

def orReturn {π σ α : Type} : Except Status α → Prog π σ Stop α
  | .ok value => return value
  | .error status => .stop (.status status)

/-- The file the journal is open on, if any. -/
structure Journal (π : Type) where
  file : Option π := none

namespace Journal

variable {π σ : Type}

/-- `open`: a file that is not there yet gets a header stamped with the current time. -/
def openFile (path : π) (now : UInt64) : Prog π σ Stop (Except Status (Journal π)) := do
  let disk ← Prog.files
  let report ← Prog.act (.create path)
  if report.took then
    if (disk path).isSome then
      return .ok ⟨some path⟩
    match ← Prog.act (.append path (JournalHeader.toBytes now)) with
    | .done => return .ok ⟨some path⟩
    | _ => return .error ⟨.fileWriteFailed, "Failed to initialize journal header"⟩
  else return .error ⟨.fileOpenFailed, "Failed to open journal file"⟩

def writeRecord (journal : Journal π) (record : JournalRecord) :
    Prog π σ Stop (Except Status Unit) :=
  match journal.file with
  | none => return .error ⟨.internalError, "Journal not open"⟩
  | some path => do
    match ← Prog.act (.append path record.toBytes) with
    | .done => return .ok ()
    | .unsynced => return .error ⟨.fileSyncFailed, "Journal fsync failed"⟩
    | _ => return .error ⟨.fileWriteFailed, "Journal write failed"⟩

def appendBegin (journal : Journal π) (txId : UInt64) : Prog π σ Stop (Except Status Unit) :=
  journal.writeRecord ⟨txId, .txBegin⟩

def appendCommit (journal : Journal π) (txId : UInt64) : Prog π σ Stop (Except Status Unit) :=
  journal.writeRecord ⟨txId, .txCommit⟩

def appendAbort (journal : Journal π) (txId : UInt64) : Prog π σ Stop (Except Status Unit) :=
  journal.writeRecord ⟨txId, .txAbort⟩

def appendAddSegment (journal : Journal π) (txId : UInt64) (entry : SegmentMeta) :
    Prog π σ Stop (Except Status Unit) :=
  journal.writeRecord ⟨txId, .addSegment entry⟩

def appendRemoveSegment (journal : Journal π) (txId segmentId : UInt64) :
    Prog π σ Stop (Except Status Unit) :=
  journal.writeRecord ⟨txId, .removeSegment segmentId⟩

def appendCompact (journal : Journal π) (txId : UInt64) (oldIds : List UInt64)
    (newMetas : List SegmentMeta) :
    Prog π σ Stop (Except Status Unit) :=
  journal.writeRecord ⟨txId, .compactSegments oldIds newMetas⟩

structure RecoveredTx where
  txId : UInt64 := 0
  committed : Bool := false
  addedSegments : List SegmentMeta := []
  removedSegments : List UInt64 := []
  deriving DecidableEq, Repr

/-- `get_or_create_tx`, followed by the update of the transaction it returns. -/
def updateTx (txId : UInt64) (update : RecoveredTx → RecoveredTx) :
    List RecoveredTx → List RecoveredTx
  | [] => [update { txId }]
  | tx :: rest => if tx.txId = txId then update tx :: rest else tx :: updateTx txId update rest

def readMeta : Cursor Stop SegmentMeta := do
  let segmentId ← Cursor.u64 .fault
  let nameLength ← Cursor.u32 .fault
  let filename ← Cursor.bytes .fault nameLength.toNat
  SegmentMeta.readTail segmentId filename

def readMetas : Nat → Cursor Stop (List SegmentMeta)
  | 0 => return []
  | left + 1 => do
    let entry ← readMeta
    let rest ← readMetas left
    return entry :: rest

def readIds : Nat → Cursor Stop (List UInt64)
  | 0 => return []
  | left + 1 => do
    let segmentId ← Cursor.u64 .fault
    let rest ← readIds left
    return segmentId :: rest

/-- What a record does to its transaction. The payload is read by a pointer into the whole buffer,
so `ahead` is everything behind the record's fixed part. A begin record, and one of an unknown
type, does nothing but create the transaction. -/
def readOp (type : UInt32) (ahead : Bytes) : Except Stop (RecoveredTx → RecoveredTx) :=
  if type = 5 then return fun tx => { tx with committed := true }
  else if type = 6 then return fun tx => { tx with committed := false }
  else if type = 2 then do
    let (entry, _) ← readMeta ahead
    return fun tx => { tx with addedSegments := tx.addedSegments ++ [entry] }
  else if type = 3 then do
    let (segmentId, _) ← Cursor.u64 .fault ahead
    return fun tx => { tx with removedSegments := tx.removedSegments ++ [segmentId] }
  else if type = 4 then do
    let (oldCount, ahead) ← Cursor.u32 .fault ahead
    let (oldIds, ahead) ← readIds oldCount.toNat ahead
    let (newCount, ahead) ← Cursor.u32 .fault ahead
    let (newMetas, _) ← readMetas newCount.toNat ahead
    return fun tx => {
      tx with
        removedSegments := tx.removedSegments ++ oldIds
        addedSegments := tx.addedSegments ++ newMetas }
  else return id

def declaredSize (ahead : Bytes) : Nat := leValue (slice ahead 12 4)

/-- The bytes a checksum is taken of: `16 + payload_size`, added up in `u32`. -/
def checkedSize (payloadSize : Nat) : Nat := (16 + payloadSize) % 2 ^ 32

def accepts (ahead : Bytes) : Bool :=
  20 ≤ ahead.length && 20 + declaredSize ahead ≤ ahead.length &&
    u32Of (slice ahead (16 + declaredSize ahead) 4) =
      Crc32C.compute (ahead.take (checkedSize (declaredSize ahead)))

def readRecords : Nat → Bytes → List RecoveredTx → Except Stop (List RecoveredTx)
  | 0, _, txs => .ok txs
  | fuel + 1, ahead, txs =>
    if accepts ahead then do
      let update ← readOp (u32Of (slice ahead 8 4)) (ahead.drop 16)
      readRecords fuel (ahead.drop (20 + declaredSize ahead))
        (updateTx (u64Of (slice ahead 0 8)) update txs)
    else .ok txs

/-- `read_all` on a path: `found` is the file there, if any. -/
def readAll (found : Option Bytes) : Except Stop (List RecoveredTx) :=
  match found with
  | none => failWith .fileNotFound "Journal file not found"
  | some buffer =>
    if buffer.length < JournalHeader.size then .ok []
    else if u32Of (slice buffer 0 4) ≠ JournalHeader.magic then
      failWith .journalInvalid "Invalid journal magic"
    else readRecords buffer.length (buffer.drop JournalHeader.size) []

end Journal

end VectorTick
