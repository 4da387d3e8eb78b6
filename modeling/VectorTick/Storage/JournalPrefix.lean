import Mathlib.Data.List.TakeWhile
import VectorTick.Common.CrcDetection
import VectorTick.Storage.JournalLog

/-! What is read of a prefix of a journal: the records that lie wholly in it, up to the first whose
checksum the reader takes over another size.

A torn record shows by its length: it has fewer than the twenty fixed bytes, or it declares a
payload that goes beyond the end. The checksum is not needed for this.
-/

set_option autoImplicit false

namespace VectorTick.Journal

open Foundation Vts1

theorem accepts_torn {record : JournalRecord} (sized : Sized record) {size : Nat}
    (cut : size < record.toBytes.length) : accepts (record.toBytes.take size) = false := by
  have long := length_toBytes sized
  have length : (record.toBytes.take size).length = size := by
    rw [List.length_take]
    omega
  by_cases fixed : 20 ≤ size
  · -- The length field is there, and says that the rest is not.
    have declared : declaredSize (record.toBytes.take size) = record.op.payload.length := by
      have whole := (fields_toBytes sized []).2.2.1
      rw [List.append_nil] at whole
      rw [← whole, declaredSize, declaredSize, slice_take _ (by omega)]
    rw [accepts, declared, length,
      decide_eq_false (show ¬ 20 + record.op.payload.length ≤ size by omega), Bool.and_false,
      Bool.false_and]
  · rw [accepts, length, decide_eq_false fixed, Bool.false_and, Bool.false_and]

theorem Torn.refused {records : List JournalRecord} {torn : Bytes} (left : Torn records torn)
    (sized : ∀ record ∈ records, Sized record) : accepts torn = false := by
  rcases left with rfl | ⟨record, listed, size, cut, rfl⟩
  · exact accepts_nil
  · exact accepts_torn (sized record listed) cut

instance : DecidablePred Checked := fun record => by
  unfold Checked
  infer_instance

/-- The records up to the first whose checksum is not the one that was written. -/
def checkedRecords (records : List JournalRecord) : List JournalRecord :=
  records.takeWhile fun record => Checked record

theorem checkedRecords_split (records : List JournalRecord) :
    checkedRecords records = records ∨
      ∃ record rest, records = checkedRecords records ++ record :: rest ∧ ¬ Checked record := by
  induction records with
  | nil => exact .inl rfl
  | cons first rest ih =>
    unfold checkedRecords at ih ⊢
    by_cases checked : Checked first
    · rw [List.takeWhile_cons_of_pos (by simpa using checked)]
      rcases ih with all | ⟨record, later, split, unchecked⟩
      · exact .inl (congrArg (first :: ·) all)
      · exact .inr ⟨record, later, congrArg (first :: ·) split, unchecked⟩
    · rw [List.takeWhile_cons_of_neg (by simpa using checked)]
      exact .inr ⟨first, rest, rfl, checked⟩

theorem readAll_take {records : List JournalRecord}
    (sized : ∀ record ∈ records, Sized record) (creationTs : UInt64)
    {cut : Nat} (behind : JournalHeader.size ≤ cut) :
    readAll (some ((fileOf creationTs records).take cut)) =
      .ok (groupRecords (checkedRecords (wholeRecords (cut - JournalHeader.size) records))) := by
  obtain ⟨torn, split, left⟩ := wholeRecords_split records (cut - JournalHeader.size)
  have whole : ∀ record ∈ wholeRecords (cut - JournalHeader.size) records, Sized record :=
    fun record listed => sized record (mem_wholeRecords listed)
  have header := length_header creationTs
  rw [fileOf, List.take_append, List.take_of_length_le (by omega), header, split]
  generalize wholeRecords (cut - JournalHeader.size) records = records at whole
  have readable : ∀ record ∈ checkedRecords records, Readable record := fun record listed =>
    ⟨whole record (List.takeWhile_subset _ listed), by simpa using List.mem_takeWhile_imp listed⟩
  rcases checkedRecords_split records with all | ⟨record, rest, split, unchecked⟩
  · rw [all] at readable ⊢
    exact readAll_records readable creationTs (left.refused sized)
  · -- The reader stops at the record, whatever is behind it.
    have refused : accepts
        (record.toBytes ++ (rest.flatMap JournalRecord.toBytes ++ torn)) = false :=
      Bool.eq_false_iff.mpr fun read => unchecked
        ((accepts_toBytes (whole record (by rw [split]; simp)) _).mp read)
    have shape : records.flatMap JournalRecord.toBytes ++ torn =
        (checkedRecords records).flatMap JournalRecord.toBytes ++
        (record.toBytes ++ (rest.flatMap JournalRecord.toBytes ++ torn)) := by
      conv_lhs => rw [split, List.flatMap_append, List.flatMap_cons]
      simp only [List.append_assoc]
    rw [shape]
    exact readAll_records readable creationTs refused

/-- The entries and ids that are listed over all transactions. -/
def entryCount (txs : List RecoveredTx) : Nat :=
  (txs.map fun tx => tx.addedSegments.length + tx.removedSegments.length).sum

theorem entryCount_updateTx (txId : UInt64) (op : JournalOp) (txs : List RecoveredTx) :
    entryCount (updateTx txId (effectOf op) txs) =
      entryCount txs + ((adds op).length + (removes op).length) := by
  have step (tx : RecoveredTx) : (effectOf op tx).addedSegments.length +
      (effectOf op tx).removedSegments.length =
      tx.addedSegments.length + tx.removedSegments.length +
        ((adds op).length + (removes op).length) := by
    cases op <;> simp [effectOf, adds, removes] <;> omega
  induction txs with
  | nil => simp [updateTx, entryCount, step]
  | cons tx rest ih =>
    unfold entryCount at ih ⊢
    rw [updateTx]
    split
    · rw [List.map_cons, List.sum_cons, step, List.map_cons, List.sum_cons]
      omega
    · rw [List.map_cons, List.sum_cons, ih, List.map_cons, List.sum_cons]
      omega

theorem entryCount_foldl (records : List JournalRecord) (txs : List RecoveredTx) :
    entryCount txs ≤ entryCount (records.foldl groupRecord txs) := by
  induction records generalizing txs with
  | nil => exact Nat.le_refl _
  | cons record rest ih =>
    have more := ih (groupRecord txs record)
    rw [groupRecord, entryCount_updateTx] at more
    exact Nat.le_trans (Nat.le_add_right _ _) more

theorem lists_of_unchecked {record : JournalRecord} (unchecked : ¬ Checked record) :
    0 < (adds record.op).length + (removes record.op).length := by
  by_contra empty
  refine unchecked (Writable.readable ?_).checked
  unfold Writable
  cases op : record.op with
  | txBegin => decide
  | txCommit => decide
  | txAbort => decide
  | addSegment entry => simp [op, adds] at empty
  | removeSegment segmentId => simp [op, removes] at empty
  | compactSegments oldIds newMetas =>
    simp only [op, adds, removes, Nat.not_lt, Nat.le_zero, Nat.add_eq_zero_iff,
      List.length_eq_zero_iff] at empty
    rw [empty.1, empty.2]
    decide

theorem groupRecords_checked_iff (records : List JournalRecord) :
    groupRecords (checkedRecords records) = groupRecords records ↔
      ∀ record ∈ records, Checked record := by
  constructor
  · intro same
    rcases checkedRecords_split records with all | ⟨record, rest, split, unchecked⟩
    · intro record listed
      rw [← all] at listed
      simpa using List.mem_takeWhile_imp listed
    · have counted := congrArg entryCount same
      have more :=
        entryCount_foldl rest (groupRecord (groupRecords (checkedRecords records)) record)
      have lists := lists_of_unchecked unchecked
      rw [groupRecord, entryCount_updateTx] at more
      conv_rhs at counted =>
        rw [split, groupRecords, List.foldl_append, List.foldl_cons, ← groupRecords, groupRecord]
      omega
  · intro checked
    rw [checkedRecords,
      List.takeWhile_eq_self_iff.mpr fun record listed => by simpa using checked record listed]

/-- What the last commit or abort record says, if there is one. -/
def verdict (ops : List JournalOp) : Bool :=
  ops.foldl (fun said op => match op with
    | .txCommit => true
    | .txAbort => false
    | _ => said) false

/-- The operations recorded for a transaction, in order. -/
def opsOf (txId : UInt64) (records : List JournalRecord) : List JournalOp :=
  (records.filter fun record => record.txId = txId).map (·.op)

/-- A transaction as its records give it. -/
def groupedTx (records : List JournalRecord) (txId : UInt64) : RecoveredTx where
  txId := txId
  committed := verdict (opsOf txId records)
  addedSegments := (opsOf txId records).flatMap adds
  removedSegments := (opsOf txId records).flatMap removes

theorem foldl_effectOf_verdict (records : List JournalRecord) (tx : RecoveredTx) :
    (records.foldl (fun tx record => effectOf record.op tx) tx).committed =
      (records.map (·.op)).foldl (fun said op => match op with
        | .txCommit => true
        | .txAbort => false
        | _ => said) tx.committed := by
  induction records generalizing tx with
  | nil => rfl
  | cons record rest ih =>
    rw [List.foldl_cons, ih, List.map_cons, List.foldl_cons]
    generalize record.op = op
    cases op <;> rfl

theorem summary_eq (records : List JournalRecord) (txId : UInt64) :
    summary txId records = groupedTx records txId := by
  obtain ⟨added, removed⟩ :=
    foldl_effectOf_parts (records.filter fun record => record.txId = txId) { txId }
  have said := foldl_effectOf_verdict (records.filter fun record => record.txId = txId) { txId }
  have named := summary_txId txId records
  unfold summary at named ⊢
  generalize (records.filter fun record => record.txId = txId).foldl
    (fun tx record => effectOf record.op tx)
    { txId } = tx at added removed said named
  cases tx
  simp only [groupedTx, opsOf, verdict, List.flatMap_map] at added removed said named ⊢
  subst named said added removed
  simp

variable {π σ : Type}

def append (journal : Journal π) (record : JournalRecord) : Prog π σ Stop (Except Status Unit) :=
  match record.op with
  | .txBegin => journal.appendBegin record.txId
  | .addSegment entry => journal.appendAddSegment record.txId entry
  | .removeSegment segmentId => journal.appendRemoveSegment record.txId segmentId
  | .compactSegments oldIds newMetas => journal.appendCompact record.txId oldIds newMetas
  | .txCommit => journal.appendCommit record.txId
  | .txAbort => journal.appendAbort record.txId

def appendAll (journal : Journal π) : List JournalRecord → Prog π σ Stop Unit
  | [] => return ()
  | record :: rest => do
    orReturn (← journal.append record)
    journal.appendAll rest

def openAndAppendAll (path : π) (now : UInt64) (calls : List JournalRecord) :
    Prog π σ Stop Unit := do
  let journal ← orReturn (← openFile path now)
  journal.appendAll calls

theorem append_eq (journal : Journal π) (record : JournalRecord) :
    (journal.append record : Prog π σ Stop _) = journal.writeRecord record := by
  obtain ⟨txId, op⟩ := record
  cases op <;> rfl

variable [DecidableEq π]

theorem appendAll_file {path : π} (calls : List JournalRecord) {reports : List Report}
    {disk : Disk π} {state : σ}
    {file : Bytes} (there : disk path = some file)
    (returned : (((Journal.mk (some path)).appendAll calls).exec reports disk state).outcome =
      .ok ()) :
    (((Journal.mk (some path)).appendAll calls).exec reports disk state).disk path =
      some (file ++ calls.flatMap JournalRecord.toBytes) := by
  induction calls generalizing reports disk file with
  | nil =>
    rw [List.flatMap_nil, List.append_nil]
    exact there
  | cons record rest ih =>
    have first : ((Journal.mk (some path)).appendAll (record :: rest) : Prog π σ Stop Unit) =
        (Journal.mk (some path)).writeRecord record >>= fun result => orReturn result >>= fun _ =>
          (Journal.mk (some path)).appendAll rest := by
      rw [appendAll, append_eq]
    rw [first] at returned ⊢
    obtain ⟨later, after, appended, returned, same⟩ :=
      append_returned record _ there (fun _ => rfl) returned
    rw [same, List.flatMap_cons, ← List.append_assoc]
    exact ih appended returned

theorem open_fresh {path : π} {now : UInt64} {rest : Except Status (Journal π) → Prog π σ Stop Unit}
    {reports : List Report} {disk : Disk π} {state : σ} (absent : disk path = none)
    (fails : ∀ status, rest (.error status) = .stop (.status status))
    (returned : ((openFile path now >>= rest).exec reports disk state).outcome = .ok ()) :
    ∃ later after, after path = some (JournalHeader.toBytes now) ∧
      ((rest (.ok ⟨some path⟩)).exec later after state).outcome = .ok () ∧
      ((openFile path now >>= rest).exec reports disk state).disk =
        ((rest (.ok ⟨some path⟩)).exec later after state).disk := by
  have created : (Effect.create path).apply disk = Function.update disk path (some []) := by
    rw [Effect.apply, absent, Option.getD_none]
  simp only [openFile, bind_assoc, Prog.exec_files, absent] at returned ⊢
  rw [Prog.exec_act] at returned ⊢
  generalize reports.headD .done = report at returned ⊢
  cases taken : report.took with
  | false =>
    simp only [taken, Bool.false_eq_true, if_false, pure_bind, fails] at returned
    cases returned
  | true =>
    have made : (Effect.create path).after disk report = Function.update disk path (some []) := by
      rw [← created]
      cases report with
      | done => rfl
      | unsynced => rfl
      | refused => cases taken
      | unwritten => cases taken
    rw [made] at returned ⊢
    simp only [taken, if_true, Option.isSome_none, Bool.false_eq_true, if_false,
      bind_assoc] at returned ⊢
    rw [Prog.exec_act] at returned ⊢
    generalize reports.tail.headD .done = second at returned ⊢
    cases second with
    | done =>
      refine ⟨reports.tail.tail, _, ?_, returned, rfl⟩
      rw [Effect.after_done, Effect.apply, Function.update_self, Function.update_self,
        Option.getD_some, List.nil_append]
    | refused =>
      simp only [pure_bind, fails] at returned
      cases returned
    | unwritten =>
      simp only [pure_bind, fails] at returned
      cases returned
    | unsynced =>
      simp only [pure_bind, fails] at returned
      cases returned

theorem openAndAppendAll_file {path : π} {now : UInt64}
    {calls : List JournalRecord} {reports : List Report}
    {disk : Disk π} {state : σ} (absent : disk path = none)
    (returned : ((openAndAppendAll path now calls).exec reports disk state).outcome = .ok ()) :
    ((openAndAppendAll path now calls).exec reports disk state).disk path =
      some (fileOf now calls) := by
  obtain ⟨later, after, headed, returned, same⟩ := open_fresh absent (fun _ => rfl) returned
  unfold openAndAppendAll fileOf
  rw [same]
  exact appendAll_file calls headed returned

/-- Cut a journal anywhere behind its header: reading reports the transactions of the records that
are wholly there, in the order in which their ids first appear, exactly if the checksum of each of
them is the one that was written. -/
theorem readAll_prefix_iff {path : π} {now : UInt64}
    {calls : List JournalRecord} {reports : List Report}
    {disk : Disk π} {state : σ} {cut : Nat} (absent : disk path = none)
    (sized : ∀ record ∈ calls, record.op.payload.length < 2 ^ 32)
    (returned : ((openAndAppendAll path now calls).exec reports disk state).outcome = .ok ())
    (behind : JournalHeader.size ≤ cut) :
    readAll ((((openAndAppendAll path now calls).exec reports disk state).disk path).map
      (·.take cut)) =
      .ok ((txOrder (wholeRecords (cut - JournalHeader.size) calls)).map
        (groupedTx (wholeRecords (cut - JournalHeader.size) calls))) ↔
      ∀ record ∈ wholeRecords (cut - JournalHeader.size) calls, Checked record := by
  rw [openAndAppendAll_file absent returned, Option.map_some, readAll_take sized now behind,
    Except.ok.injEq, ← groupRecords_checked_iff, groupRecords_eq (wholeRecords _ _)]
  simp only [summary_eq]

theorem readAll_prefix_interleaved :
    let calls : List JournalRecord :=
      [⟨2, .txBegin⟩, ⟨1, .txBegin⟩, ⟨2, .removeSegment 7⟩, ⟨1, .txCommit⟩, ⟨2, .txCommit⟩]
    let ran := (openAndAppendAll () 0 calls : Prog Unit Unit Stop Unit).exec [] (fun _ => none) ()
    readAll ((ran.disk ()).map (·.take 123)) =
      .ok [{ txId := 2, removedSegments := [7] }, { txId := 1, committed := true }] := by
  intro calls ran
  have writable : ∀ record ∈ calls, record.op.payload.length < 2 ^ 32 - 16 := by decide
  have sized : ∀ record ∈ calls, Sized record :=
    fun record listed => Writable.sized (writable record listed)
  have bytes : ∀ record ∈ calls, record.toBytes.length = 20 + record.op.payload.length :=
    fun record listed => length_toBytes (sized record listed)
  have whole : wholeRecords (123 - JournalHeader.size) calls = calls.take 4 := by
    simp only [calls, List.forall_mem_cons] at bytes
    simp only [calls, wholeRecords, bytes]
    rfl
  have read :=
    @readAll_prefix_iff Unit Unit _ () 0 calls [] (fun _ => none) () 123 rfl sized rfl (by decide)
  rw [whole] at read
  exact read.mpr fun record listed =>
    (Writable.readable (writable record (List.mem_of_mem_take listed))).checked

/-- A record whose payload is sixteen bytes short of the 32-bit range: its
checksum is taken of nothing. -/
def longRecord (last : UInt8) : JournalRecord :=
  ⟨1, .addSegment { filename := List.replicate (2 ^ 32 - 87) 0 ++ [last] }⟩

theorem length_payload_longRecord (last : UInt8) :
    (longRecord last).op.payload.length = 2 ^ 32 - 16 := by
  rw [longRecord, JournalOp.payload, length_toBytes_meta, List.length_append, List.length_replicate,
    List.length_singleton]
  omega

theorem exists_unchecked : ∃ last, ¬ Checked (longRecord last) := by
  by_contra none
  have checked : ∀ last, Checked (longRecord last) := not_exists_not.mp none
  have shape : ∃ front back : Bytes, ∀ last, (longRecord last).bodyBytes =
      front ++ last :: back := by
    refine ⟨u64 1 ++
      (u32 2 ++ (u32 (UInt32.ofNat (2 ^ 32 - 16)) ++ (u64 0 ++ (u32 (UInt32.ofNat (2 ^ 32 - 86)) ++
      List.replicate (2 ^ 32 - 87) 0)))), SegmentMeta.tailBytes {}, fun last => ?_⟩
    have sized : Sized (longRecord last) := by
      rw [Sized, length_payload_longRecord]
      decide
    have named : (List.replicate (2 ^ 32 - 87) (0 : UInt8) ++ [last]).length = 2 ^ 32 - 86 := by
      rw [List.length_append, List.length_replicate, List.length_singleton]
      omega
    rw [bodyBytes_eq sized, JournalRecord.payloadSize, length_payload_longRecord, longRecord,
      JournalOp.payload, SegmentMeta.toBytes, named]
    simp only [List.append_assoc, List.singleton_append]
    rfl
  obtain ⟨front, back, bytes⟩ := shape
  have nothing (last : UInt8) : Crc32C.compute [] = Crc32C.compute (front ++ last :: back) := by
    have here := checked last
    rwa [Checked, length_payload_longRecord, bytes, show checkedSize (2 ^ 32 - 16) =
      0 from rfl, List.take_zero] at here
  exact Crc32C.compute_ne_of_byte (show (0 : UInt8) ≠ 1 by decide) front back
    ((nothing 0).symm.trans (nothing 1))

theorem openAndAppend_single (record : JournalRecord) :
    ((openAndAppendAll () 0 [record] : Prog Unit Unit Stop Unit).exec [] (fun _ => none)
      ()).outcome = .ok () := by
  obtain ⟨txId, op⟩ := record
  cases op <;> rfl

theorem readAll_prefix_wrapped :
    ∃ last, (longRecord last).op.payload.length < 2 ^ 32 ∧
      let ran :=
  (openAndAppendAll () 0 [longRecord last] : Prog Unit Unit Stop Unit).exec [] (fun _ => none) ()
      ran.outcome = .ok () ∧
      readAll (ran.disk ()) ≠
        .ok ((txOrder [longRecord last]).map (groupedTx [longRecord last])) := by
  obtain ⟨last, unchecked⟩ := exists_unchecked
  have payload := length_payload_longRecord last
  refine ⟨last, by omega, ?_⟩
  generalize longRecord last = record at unchecked payload
  have returned := openAndAppend_single record
  refine ⟨returned, ?_⟩
  have sized : ∀ other ∈ [record], Sized other := by
    simp only [List.mem_singleton, forall_eq, Sized]
    omega
  have whole : wholeRecords (JournalHeader.size + record.toBytes.length - JournalHeader.size)
      [record] = [record] := by
    rw [Nat.add_sub_cancel_left, wholeRecords, if_pos (Nat.le_refl _), wholeRecords]
  have read := readAll_take sized 0 (Nat.le_add_right JournalHeader.size record.toBytes.length)
  rw [whole, List.take_of_length_le (by simp [fileOf, length_header])] at read
  rw [openAndAppendAll_file rfl returned, read]
  intro same
  rw [Except.ok.injEq] at same
  refine unchecked ((groupRecords_checked_iff [record]).mp ?_ record (by simp))
  rw [same, groupRecords_eq]
  simp only [summary_eq]

end VectorTick.Journal
