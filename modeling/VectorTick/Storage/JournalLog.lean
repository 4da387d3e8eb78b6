import VectorTick.Storage.Journal

/-! What the journal reader makes of the records that were appended.

Records are grouped by transaction id, in the order in which the ids first appear. The reader
stops at the first record it does not accept, so bytes that a torn write left in the middle of
the file hide everything appended behind them.
-/

set_option autoImplicit false

namespace VectorTick.Journal

open Foundation Vts1

/-- What an operation adds to its transaction. -/
def effectOf (op : JournalOp) (tx : RecoveredTx) : RecoveredTx :=
  match op with
  | .txBegin => tx
  | .addSegment entry => { tx with addedSegments := tx.addedSegments ++ [entry] }
  | .removeSegment segmentId => { tx with removedSegments := tx.removedSegments ++ [segmentId] }
  | .compactSegments oldIds newMetas =>
    { tx with removedSegments := tx.removedSegments ++
      oldIds, addedSegments := tx.addedSegments ++ newMetas }
  | .txCommit => { tx with committed := true }
  | .txAbort => { tx with committed := false }

def groupRecord (txs : List RecoveredTx) (record : JournalRecord) : List RecoveredTx :=
  updateTx record.txId (effectOf record.op) txs

def groupRecords (records : List JournalRecord) : List RecoveredTx := records.foldl groupRecord []

@[simp] theorem effectOf_txId (op : JournalOp)
    (tx : RecoveredTx) : (effectOf op tx).txId = tx.txId := by
  cases op <;> rfl

theorem ids_groupRecord (txs : List RecoveredTx) (record : JournalRecord) :
    (groupRecord txs record).map (·.txId) =
      if record.txId ∈ txs.map (·.txId) then txs.map (·.txId)
        else txs.map (·.txId) ++ [record.txId] := by
  rw [groupRecord]
  induction txs with
  | nil => simp [updateTx]
  | cons tx rest ih =>
    rw [updateTx]
    by_cases same : tx.txId = record.txId
    · simp [same]
    · have apart : record.txId ≠ tx.txId := fun asked => same asked.symm
      rw [if_neg same, List.map_cons, ih, List.map_cons]
      by_cases later : record.txId ∈ rest.map (·.txId)
      · rw [if_pos later, if_pos (List.mem_cons_of_mem _ later)]
      · rw [if_neg later, if_neg (by simpa [apart] using later), List.cons_append]

theorem mem_ids_foldl (records : List JournalRecord) (txs : List RecoveredTx) (txId : UInt64) :
    txId ∈ (records.foldl groupRecord txs).map (·.txId) ↔
      txId ∈ txs.map (·.txId) ∨ ∃ record ∈ records, record.txId = txId := by
  induction records generalizing txs with
  | nil => simp
  | cons record rest ih =>
    rw [List.foldl_cons, ih, ids_groupRecord]
    split
    · next known =>
      constructor
      · rintro (old | ⟨later, listed, same⟩)
        · exact .inl old
        · exact .inr ⟨later, List.mem_cons_of_mem _ listed, same⟩
      · rintro (old | ⟨later, listed, same⟩)
        · exact .inl old
        · rcases List.mem_cons.mp listed with rfl | listed
          · exact .inl (same ▸ known)
          · exact .inr ⟨later, listed, same⟩
    · rw [List.mem_append, List.mem_singleton, or_assoc, List.exists_mem_cons_iff, eq_comm]

theorem mem_ids_groupRecords (records : List JournalRecord) (txId : UInt64) :
    txId ∈ (groupRecords records).map (·.txId) ↔ ∃ record ∈ records, record.txId = txId := by
  rw [groupRecords, mem_ids_foldl]
  simp

theorem updateTx_fresh {txs : List RecoveredTx} {txId : UInt64} (update : RecoveredTx → RecoveredTx)
    (fresh : txId ∉ txs.map (·.txId)) : updateTx txId update txs = txs ++ [update { txId }] := by
  induction txs with
  | nil => rfl
  | cons tx rest ih =>
    rw [List.map_cons, List.mem_cons, not_or] at fresh
    rw [updateTx, if_neg fun same => fresh.1 same.symm, ih fresh.2, List.cons_append]

theorem updateTx_last {txs : List RecoveredTx} {last : RecoveredTx}
    (update : RecoveredTx → RecoveredTx)
    (fresh : last.txId ∉ txs.map (·.txId)) :
    updateTx last.txId update (txs ++ [last]) = txs ++ [update last] := by
  induction txs with
  | nil => simp [updateTx]
  | cons tx rest ih =>
    rw [List.map_cons, List.mem_cons, not_or] at fresh
    rw [List.cons_append, updateTx, if_neg fun same => fresh.1 same.symm,
      ih fresh.2, List.cons_append]

theorem foldl_fresh (txs : List RecoveredTx) (last : RecoveredTx) (ops : List JournalOp)
    (fresh : last.txId ∉ txs.map (·.txId)) :
    (ops.map (JournalRecord.mk last.txId)).foldl groupRecord (txs ++ [last]) =
      txs ++ [ops.foldl (fun tx op => effectOf op tx) last] := by
  induction ops generalizing last with
  | nil => rfl
  | cons op rest ih =>
    rw [List.map_cons, List.foldl_cons, List.foldl_cons, groupRecord, updateTx_last _ fresh]
    have later := @ih (effectOf op last) (by rwa [effectOf_txId])
    rwa [effectOf_txId] at later

/-- What the records of one transaction make of it. -/
def summary (txId : UInt64) (records : List JournalRecord) : RecoveredTx :=
  (records.filter fun record => record.txId = txId).foldl
    (fun tx record => effectOf record.op tx) { txId }

theorem foldl_effectOf_txId (records : List JournalRecord) (tx : RecoveredTx) :
    (records.foldl (fun tx record => effectOf record.op tx) tx).txId = tx.txId := by
  induction records generalizing tx with
  | nil => rfl
  | cons record rest ih => rw [List.foldl_cons, ih, effectOf_txId]

@[simp] theorem summary_txId (txId : UInt64) (records : List JournalRecord) :
    (summary txId records).txId = txId := by
  rw [summary, foldl_effectOf_txId]

theorem summary_append (txId : UInt64) (first second : List JournalRecord) :
    summary txId (first ++ second) = (second.filter fun record => record.txId = txId).foldl
      (fun tx record => effectOf record.op tx) (summary txId first) := by
  rw [summary, List.filter_append, List.foldl_append, ← summary]

theorem summary_snoc (txId : UInt64) (records : List JournalRecord) (record : JournalRecord) :
    summary txId (records ++ [record]) =
      if record.txId = txId then effectOf record.op (summary txId records)
        else summary txId records := by
  rw [summary_append, List.filter_singleton]
  split
  · next same => simp [same]
  · next apart => simp [apart]

theorem summary_absent {txId : UInt64} {records : List JournalRecord}
    (absent : ∀ record ∈ records, record.txId ≠ txId) :
    summary txId records = { txId } := by
  rw [summary, List.filter_eq_nil_iff.mpr fun record listed => by simpa using absent record listed]
  rfl

/-- The transaction ids in the order in which they first appear. -/
def txOrder (records : List JournalRecord) : List UInt64 :=
  records.foldl (fun ids record => if record.txId ∈ ids then ids else ids ++ [record.txId]) []

theorem txOrder_snoc (records : List JournalRecord) (record : JournalRecord) :
    txOrder (records ++ [record]) =
      if record.txId ∈ txOrder records then txOrder records
        else txOrder records ++ [record.txId] := by
  rw [txOrder, List.foldl_append, ← txOrder]
  rfl

theorem txOrder_nodup (records : List JournalRecord) : (txOrder records).Nodup := by
  induction records using List.reverseRecOn with
  | nil => exact List.nodup_nil
  | append_singleton records record ih =>
    rw [txOrder_snoc]
    split
    · exact ih
    · next fresh =>
      exact List.nodup_append.mpr ⟨ih, List.nodup_singleton _, fun known listed other single same =>
        fresh (List.mem_singleton.mp single ▸ same ▸ listed)⟩

theorem mem_txOrder (records : List JournalRecord) (txId : UInt64) :
    txId ∈ txOrder records ↔ ∃ record ∈ records, record.txId = txId := by
  induction records using List.reverseRecOn with
  | nil => simp [txOrder]
  | append_singleton records record ih =>
    rw [txOrder_snoc]
    split
    · next known => grind
    · grind

theorem updateTx_map {ids : List UInt64} (distinct : ids.Nodup) {entry : UInt64 → RecoveredTx}
    (named : ∀ txId, (entry txId).txId = txId) {txId : UInt64} (listed : txId ∈ ids)
      (update : RecoveredTx → RecoveredTx) :
    updateTx txId update (ids.map entry) =
      ids.map fun other => if txId = other then update (entry other) else entry other := by
  induction ids with
  | nil => cases listed
  | cons first rest ih =>
    rw [List.nodup_cons] at distinct
    rw [List.map_cons, updateTx, named, List.map_cons]
    by_cases here : first = txId
    · subst here
      rw [if_pos rfl, if_pos rfl]
      congr 1
      refine List.map_congr_left fun other later => ?_
      rw [if_neg (show first ≠ other from fun same => distinct.1 (same ▸ later))]
    · rw [if_neg here, if_neg fun same => here same.symm,
        ih distinct.2 ((List.mem_cons.mp listed).resolve_left fun same => here same.symm)]

theorem groupRecords_eq (records : List JournalRecord) :
    groupRecords records = (txOrder records).map fun txId => summary txId records := by
  induction records using List.reverseRecOn with
  | nil => rfl
  | append_singleton records record ih =>
    have step : groupRecords (records ++ [record]) = updateTx record.txId (effectOf record.op)
      (groupRecords records) := by
      rw [groupRecords, List.foldl_append, ← groupRecords]
      rfl
    have others : (fun txId => summary txId (records ++ [record])) = fun txId =>
        if record.txId = txId then effectOf record.op (summary txId records)
          else summary txId records :=
      funext fun txId => summary_snoc txId records record
    rw [step, ih, others, txOrder_snoc]
    by_cases known : record.txId ∈ txOrder records
    · rw [if_pos known, updateTx_map (txOrder_nodup records)
        (fun txId => summary_txId txId records) known]
    · have absent : ∀ other ∈ records, other.txId ≠ record.txId := fun other listed same =>
        known ((mem_txOrder records _).mpr ⟨other, listed, same⟩)
      rw [if_neg known, updateTx_fresh _ (by simpa using known), List.map_append,
        List.map_singleton, if_pos rfl, summary_absent absent]
      congr 1
      refine List.map_congr_left fun other listed => ?_
      rw [if_neg (show record.txId ≠ other from fun same => known (same ▸ listed))]

theorem mem_groupRecords {records : List JournalRecord} {tx : RecoveredTx} :
    tx ∈ groupRecords records ↔
      (∃ record ∈ records, record.txId = tx.txId) ∧ tx = summary tx.txId records := by
  rw [groupRecords_eq, List.mem_map]
  constructor
  · rintro ⟨txId, listed, rfl⟩
    rw [summary_txId]
    exact ⟨(mem_txOrder records txId).mp listed, rfl⟩
  · rintro ⟨found, same⟩
    exact ⟨tx.txId, (mem_txOrder records tx.txId).mpr found, same.symm⟩

theorem groupRecords_single {records : List JournalRecord} {txId : UInt64} (some : records ≠ [])
    (same : ∀ record ∈ records, record.txId = txId) : groupRecords records =
      [summary txId records] := by
  have order : txOrder records = [txId] := by
    have distinct := txOrder_nodup records
    have only : ∀ other ∈ txOrder records, other = txId := fun other listed => by
      obtain ⟨record, found, rfl⟩ := (mem_txOrder records other).mp listed
      exact same record found
    obtain ⟨first, listed⟩ := List.exists_mem_of_ne_nil _ some
    have known := (mem_txOrder records txId).mpr ⟨first, listed, same first listed⟩
    cases shape : txOrder records with
    | nil => rw [shape] at known; cases known
    | cons head tail =>
      rw [shape] at only distinct
      have headSame := only head (by simp)
      cases tail with
      | nil => rw [headSame]
      | cons next rest =>
        have nextSame := only next (by simp)
        simp [headSame, nextSame] at distinct
  rw [groupRecords_eq, order]
  rfl

/-- The segments an operation adds, and the ids it removes. -/
def adds : JournalOp → List SegmentMeta
  | .addSegment entry => [entry]
  | .compactSegments _ newMetas => newMetas
  | _ => []

def removes : JournalOp → List UInt64
  | .removeSegment segmentId => [segmentId]
  | .compactSegments oldIds _ => oldIds
  | _ => []

theorem foldl_effectOf_parts (records : List JournalRecord) (tx : RecoveredTx) :
    (records.foldl (fun tx record => effectOf record.op tx) tx).addedSegments =
        tx.addedSegments ++ records.flatMap (fun record => adds record.op) ∧
      (records.foldl (fun tx record => effectOf record.op tx) tx).removedSegments =
        tx.removedSegments ++ records.flatMap (fun record => removes record.op) := by
  induction records generalizing tx with
  | nil => simp
  | cons record rest ih =>
    rw [List.foldl_cons, (ih _).1, (ih _).2, List.flatMap_cons, List.flatMap_cons]
    generalize record.op = op
    cases op <;> simp [effectOf, adds, removes]

theorem foldl_effectOf_committed {records : List JournalRecord} (tx : RecoveredTx)
    (noAbort : ∀ record ∈ records, record.op ≠ .txAbort) :
    (records.foldl (fun tx record => effectOf record.op tx) tx).committed =
      (tx.committed || records.any fun record => record.op = .txCommit) := by
  induction records generalizing tx with
  | nil => simp
  | cons record rest ih =>
    have here := noAbort record (by simp)
    rw [List.foldl_cons, ih _ fun other listed => noAbort other (by simp [listed])]
    cases op : record.op <;> simp_all [effectOf]

theorem length_toBytes_meta (entry : SegmentMeta) :
    entry.toBytes.length = 70 + entry.filename.length := by
  simp only [SegmentMeta.toBytes, List.length_append, length_u64,
    length_u32, entry.length_tailBytes]
  omega

theorem readMeta_toBytes {entry : SegmentMeta}
    (short : entry.toBytes.length < 2 ^ 32) (rest : Bytes) :
    readMeta (entry.toBytes ++ rest) = .ok (entry, rest) := by
  rw [length_toBytes_meta] at short
  have named : (UInt32.ofNat entry.filename.length).toNat = entry.filename.length := by
    rw [UInt32.toNat_ofNat', Nat.mod_eq_of_lt (by omega)]
  rw [readMeta, SegmentMeta.toBytes, List.append_assoc, List.append_assoc, List.append_assoc,
    Cursor.bind_ok (Cursor.u64_append ..), Cursor.bind_ok (Cursor.u32_append ..),
    Cursor.bind_ok (Cursor.bytes_append_of_length _ _ named)]
  exact entry.readTail_tailBytes rest

theorem readMetas_flatMap {entries : List SegmentMeta}
    (short : ∀ entry ∈ entries, entry.toBytes.length < 2 ^ 32)
    (rest : Bytes) : readMetas entries.length (entries.flatMap SegmentMeta.toBytes ++ rest) =
      .ok (entries, rest) := by
  induction entries with
  | nil => rfl
  | cons entry others ih =>
    rw [List.flatMap_cons, List.append_assoc, List.length_cons, readMetas,
      Cursor.bind_ok (readMeta_toBytes (short entry (by simp)) _),
      Cursor.bind_ok (ih fun other listed => short other (by simp [listed]))]
    rfl

theorem readIds_flatMap (ids : List UInt64) (rest : Bytes) :
    readIds ids.length (ids.flatMap u64 ++ rest) = .ok (ids, rest) := by
  induction ids with
  | nil => rfl
  | cons id others ih =>
    rw [List.flatMap_cons, List.append_assoc, List.length_cons, readIds,
      Cursor.bind_ok (Cursor.u64_append ..), Cursor.bind_ok ih]
    rfl

theorem length_le_flatMap {T : Type} (width : Nat) (encode : T → Bytes) (items : List T)
    (wide : ∀ item ∈ items, width ≤ (encode item).length) :
    width * items.length ≤ (items.flatMap encode).length := by
  induction items with
  | nil => simp
  | cons item rest ih =>
    have first := wide item (by simp)
    have others := ih fun other listed => wide other (by simp [listed])
    rw [List.flatMap_cons, List.length_append, List.length_cons, Nat.mul_succ]
    omega

theorem length_mem_flatMap {T : Type} {encode : T → Bytes} {items : List T}
    {item : T} (listed : item ∈ items) :
    (encode item).length ≤ (items.flatMap encode).length := by
  obtain ⟨before, after, rfl⟩ := List.append_of_mem listed
  simp only [List.flatMap_append, List.flatMap_cons, List.length_append]
  omega

theorem readOp_payload {op : JournalOp} (short : op.payload.length < 2 ^ 32) (rest : Bytes) :
    readOp op.type (op.payload ++ rest) = .ok (effectOf op) := by
  cases op with
  | txBegin => rfl
  | txCommit => rfl
  | txAbort => rfl
  | addSegment entry =>
    rw [show readOp (JournalOp.addSegment entry).type _ = (readMeta _ >>= fun read => _) from rfl,
      JournalOp.payload, readMeta_toBytes short, ok_bind]
    rfl
  | removeSegment segmentId =>
    rw [show readOp (JournalOp.removeSegment segmentId).type _ =
      (Cursor.u64 .fault _ >>= fun read => _) from rfl,
      JournalOp.payload, Cursor.u64_append, ok_bind]
    rfl
  | compactSegments oldIds newMetas =>
    rw [JournalOp.payload] at short ⊢
    simp only [List.length_append, length_u32] at short
    have oldLength := length_le_flatMap 8 u64 oldIds fun id _ => (length_u64 id).ge
    have newLength := length_le_flatMap 70 SegmentMeta.toBytes newMetas fun entry _ => by
      rw [length_toBytes_meta]
      omega
    have oldCount : (UInt32.ofNat oldIds.length).toNat = oldIds.length := by
      rw [UInt32.toNat_ofNat', Nat.mod_eq_of_lt (by omega)]
    have newCount : (UInt32.ofNat newMetas.length).toNat = newMetas.length := by
      rw [UInt32.toNat_ofNat', Nat.mod_eq_of_lt (by omega)]
    have each : ∀ entry ∈ newMetas, entry.toBytes.length < 2 ^ 32 := fun entry listed => by
      have bounded : entry.toBytes.length ≤ (newMetas.flatMap SegmentMeta.toBytes).length :=
        length_mem_flatMap listed
      omega
    rw [show readOp (JournalOp.compactSegments oldIds newMetas).type
      _ = (Cursor.u32 .fault _ >>= fun read => _) from rfl,
      List.append_assoc, List.append_assoc, List.append_assoc, Cursor.u32_append, ok_bind]
    simp only [oldCount]
    rw [readIds_flatMap, ok_bind]
    simp only
    rw [Cursor.u32_append, ok_bind]
    simp only [newCount]
    rw [readMetas_flatMap each, ok_bind]
    rfl

/-- A record whose payload size fits its field. -/
def Sized (record : JournalRecord) : Prop := record.op.payload.length < 2 ^ 32

/-- The checksum that the reader takes of a record is the one that was written. -/
def Checked (record : JournalRecord) : Prop :=
  Crc32C.compute (record.bodyBytes.take (checkedSize record.op.payload.length)) =
    Crc32C.compute record.bodyBytes

structure Readable (record : JournalRecord) : Prop where
  sized : Sized record
  checked : Checked record

/-- A record whose payload size still fits with the sixteen bytes in front of the payload. -/
def Writable (record : JournalRecord) : Prop := record.op.payload.length < 2 ^ 32 - 16

theorem Writable.sized {record : JournalRecord} (writable : Writable record) : Sized record := by
  unfold Writable at writable
  unfold Sized
  omega

theorem writable_empty {txId : UInt64} {op : JournalOp} (empty : op.payload = []) :
    Writable ⟨txId, op⟩ := by
  rw [Writable, empty]
  decide

theorem bodyBytes_eq {record : JournalRecord} (sized : Sized record) :
    record.bodyBytes =
      u64 record.txId ++ (u32 record.op.type ++ (u32 record.payloadSize ++ record.op.payload)) := by
  rw [JournalRecord.bodyBytes, JournalRecord.payloadSize, UInt32.toNat_ofNat',
    Nat.mod_eq_of_lt sized, List.take_length]

theorem length_bodyBytes {record : JournalRecord} (sized : Sized record) :
    record.bodyBytes.length = 16 + record.op.payload.length := by
  simp only [bodyBytes_eq sized, List.length_append, length_u64, length_u32]
  omega

theorem Writable.readable {record : JournalRecord} (writable : Writable record) :
    Readable record := by
  refine ⟨writable.sized, ?_⟩
  have length := length_bodyBytes writable.sized
  unfold Writable at writable
  rw [Checked, checkedSize, Nat.mod_eq_of_lt (by omega), ← length, List.take_length]

theorem length_toBytes {record : JournalRecord} (sized : Sized record) :
    record.toBytes.length = 20 + record.op.payload.length := by
  rw [JournalRecord.toBytes, List.length_append, length_bodyBytes sized, length_u32]
  omega

theorem fields_toBytes {record : JournalRecord} (sized : Sized record) (rest : Bytes) :
    slice (record.toBytes ++ rest) 0 8 = u64 record.txId ∧
      slice (record.toBytes ++ rest) 8 4 = u32 record.op.type ∧
      declaredSize (record.toBytes ++ rest) = record.op.payload.length ∧
      (record.toBytes ++ rest).drop 16 =
        record.op.payload ++ (u32 (Crc32C.compute record.bodyBytes) ++ rest) := by
  generalize crc : u32 (Crc32C.compute record.bodyBytes) = stored
  have bytes : record.toBytes ++ rest =
      u64 record.txId ++ (u32 record.op.type ++ (u32 record.payloadSize ++
      (record.op.payload ++ (stored ++ rest)))) := by
    rw [JournalRecord.toBytes, crc, bodyBytes_eq sized]
    simp only [List.append_assoc]
  have size : leValue (u32 record.payloadSize) = record.op.payload.length := by
    rw [u32, JournalRecord.payloadSize, UInt32.toNat_ofNat', Nat.mod_eq_of_lt sized,
      leValue_le _ _ (by simpa [Sized] using sized)]
  refine ⟨?_, ?_, ?_, ?_⟩
  · rw [bytes, slice, List.drop_zero, List.take_left' (length_u64 _)]
  · rw [bytes]
    exact slice_append _ _ _ (length_u64 _).symm (length_u32 _).symm
  · rw [declaredSize, bytes, ← List.append_assoc, slice_append _ _ _ (by simp)
      (length_u32 _).symm, size]
  · rw [bytes, ← List.append_assoc, ← List.append_assoc, List.drop_left' (by simp)]

theorem accepts_toBytes {record : JournalRecord} (sized : Sized record) (rest : Bytes) :
    accepts (record.toBytes ++ rest) = true ↔ Checked record := by
  have long := length_toBytes sized
  have size := (fields_toBytes sized rest).2.2.1
  have length := length_bodyBytes sized
  have wrapped : checkedSize record.op.payload.length ≤ 16 + record.op.payload.length :=
    Nat.mod_le _ _
  have body : (record.toBytes ++ rest).take (checkedSize record.op.payload.length) =
      record.bodyBytes.take (checkedSize record.op.payload.length) := by
    rw [JournalRecord.toBytes, List.append_assoc, List.take_append_of_le_length (by omega)]
  have crc : slice (record.toBytes ++ rest) (16 + record.op.payload.length) 4 =
      u32 (Crc32C.compute record.bodyBytes) := by
    rw [JournalRecord.toBytes, List.append_assoc]
    exact slice_append _ _ _ length.symm (length_u32 _).symm
  rw [accepts, size, body, crc, u32Of_u32, List.length_append, long, decide_eq_true (by omega),
    decide_eq_true (by omega), Bool.true_and, Bool.true_and, decide_eq_true_eq, Checked]
  exact eq_comm

theorem readRecords_append {records : List JournalRecord}
    (readable : ∀ record ∈ records, Readable record)
    (fuel : Nat) (rest : Bytes) (txs : List RecoveredTx) :
    readRecords (records.length + fuel) (records.flatMap JournalRecord.toBytes ++ rest) txs =
      readRecords fuel rest (records.foldl groupRecord txs) := by
  induction records generalizing txs with
  | nil => rw [List.length_nil, Nat.zero_add]; rfl
  | cons record others ih =>
    obtain ⟨sized, checked⟩ := readable record (by simp)
    obtain ⟨tx, type, size, ahead⟩ :=
      fields_toBytes sized (others.flatMap JournalRecord.toBytes ++ rest)
    have behind : (record.toBytes ++ (others.flatMap JournalRecord.toBytes ++ rest)).drop
        (20 + record.op.payload.length) = others.flatMap JournalRecord.toBytes ++ rest :=
      List.drop_left' (length_toBytes sized)
    rw [List.flatMap_cons, List.append_assoc, List.length_cons, Nat.add_right_comm, readRecords,
      if_pos ((accepts_toBytes sized _).mpr checked), tx, type, ahead, size, u32Of_u32, u64Of_u64,
      readOp_payload sized, ok_bind, behind,
      ih fun other listed => readable other (by simp [listed])]
    rfl

theorem readRecords_stops {ahead : Bytes} (refused : accepts ahead = false) (fuel : Nat)
    (txs : List RecoveredTx) :
    readRecords fuel ahead txs = .ok txs := by
  cases fuel with
  | zero => rfl
  | succ fuel => rw [readRecords, refused]; rfl

theorem length_header (creationTs : UInt64) :
    (JournalHeader.toBytes creationTs).length = JournalHeader.size := by
  simp [JournalHeader.toBytes, JournalHeader.size]

theorem header_magic (creationTs : UInt64) (rest : Bytes) :
    u32Of (slice (JournalHeader.toBytes creationTs ++ rest) 0 4) = JournalHeader.magic := by
  rw [JournalHeader.toBytes, List.append_assoc, slice, List.drop_zero,
    List.take_left' (length_u32 _), u32Of_u32]

theorem readAll_records {records : List JournalRecord}
    (readable : ∀ record ∈ records, Readable record)
    (creationTs : UInt64) {rest : Bytes} (refused : accepts rest = false) :
    readAll (some
      (JournalHeader.toBytes creationTs ++ (records.flatMap JournalRecord.toBytes ++ rest))) =
      .ok (groupRecords records) := by
  have header := length_header creationTs
  have counted := length_le_flatMap 1 JournalRecord.toBytes records fun record listed => by
    rw [length_toBytes (readable record listed).sized]
    omega
  rw [readAll]
  simp only [List.length_append, header]
  rw [if_neg (by omega), if_neg (not_not_intro (header_magic creationTs _)), List.drop_left' header]
  obtain ⟨fuel, enough⟩ := Nat.exists_eq_add_of_le (show records.length ≤ JournalHeader.size +
    ((records.flatMap JournalRecord.toBytes).length + rest.length) by omega)
  rw [enough, readRecords_append readable, readRecords_stops refused, groupRecords]

theorem accepts_nil : accepts [] = false := rfl

/-- A journal of whole records. -/
def fileOf (creationTs : UInt64) (records : List JournalRecord) : Bytes :=
  JournalHeader.toBytes creationTs ++ records.flatMap JournalRecord.toBytes

theorem readAll_fileOf {records : List JournalRecord}
    (writable : ∀ record ∈ records, Writable record)
    (creationTs : UInt64) :
    readAll (some (fileOf creationTs records)) = .ok (groupRecords records) := by
  have read :=
    readAll_records (fun record listed => (writable record listed).readable) creationTs accepts_nil
  rwa [List.append_nil] at read

/-- The records that lie wholly in the first `room` bytes behind the header. -/
def wholeRecords : Nat → List JournalRecord → List JournalRecord
  | _, [] => []
  | room, record :: rest =>
    if record.toBytes.length ≤ room then
      record :: wholeRecords (room - record.toBytes.length) rest else []

/-- The length of the whole-record part of a journal cut after `cut` bytes. -/
def wholeSize (records : List JournalRecord) (cut : Nat) : Nat :=
  JournalHeader.size +
    ((wholeRecords (cut - JournalHeader.size) records).flatMap JournalRecord.toBytes).length

/-- The cut lies behind the header and in no record. -/
def OnBoundary (creationTs : UInt64) (records : List JournalRecord) (cut : Nat) : Prop :=
  ((fileOf creationTs records).take cut).length = wholeSize records cut

/-- The records of a complete transaction. -/
def transaction (txId : UInt64) (entry : SegmentMeta) : List JournalRecord :=
  [.txBegin, .addSegment entry, .txCommit].map (JournalRecord.mk txId)

/-- The reader goes on behind the whole-record part although what follows there is a torn record
run into the new ones: the checksum of the mixture holds by coincidence. -/
def Misread (records : List JournalRecord) (cut : Nat) (buffer : Bytes) : Prop :=
  u32Of (slice buffer 0 4) = JournalHeader.magic ∧
    accepts (buffer.drop (wholeSize records cut)) = true

/-- Append a complete transaction; any step that fails ends it. -/
def appendTransaction {π σ : Type} (journal : Journal π) (txId : UInt64) (entry : SegmentMeta) :
    Prog π σ Stop Unit := do
  orReturn (← journal.appendBegin txId)
  orReturn (← journal.appendAddSegment txId entry)
  orReturn (← journal.appendCommit txId)

def openAndAppend {π σ : Type} (path : π) (now txId : UInt64) (entry : SegmentMeta) :
    Prog π σ Stop Unit := do
  let journal ← orReturn (← openFile path now)
  journal.appendTransaction txId entry

section Torn

variable {π σ : Type} [DecidableEq π]

theorem append_returned (record : JournalRecord)
    (rest : Except Status Unit → Prog π σ Stop Unit) {path : π}
    {reports : List Report} {disk : Disk π} {state : σ} {file : Bytes}
    (there : disk path = some file)
    (fails : ∀ status, rest (.error status) = .stop (.status status))
    (returned : (((Journal.mk (some path)).writeRecord record >>= rest).exec reports disk
      state).outcome = .ok ()) :
    ∃ later after, after path = some (file ++ record.toBytes) ∧
      ((rest (.ok ())).exec later after state).outcome = .ok () ∧
      (((Journal.mk (some path)).writeRecord record >>= rest).exec reports disk state).disk =
        ((rest (.ok ())).exec later after state).disk := by
  simp only [writeRecord, bind_assoc] at returned ⊢
  generalize record.toBytes = bytes at returned ⊢
  rw [Prog.exec_act] at returned ⊢
  generalize reports.headD .done = report at returned ⊢
  cases report with
  | done =>
    refine ⟨reports.tail, (Effect.append path bytes).after disk .done, ?_, returned, rfl⟩
    rw [Effect.after_done, Effect.apply, Function.update_self, there, Option.getD_some]
  | refused =>
    dsimp only at returned
    rw [pure_bind, fails] at returned
    cases returned
  | unwritten =>
    dsimp only at returned
    rw [pure_bind, fails] at returned
    cases returned
  | unsynced =>
    dsimp only at returned
    rw [pure_bind, fails] at returned
    cases returned

theorem open_returned {path : π} {now : UInt64}
    {rest : Except Status (Journal π) → Prog π σ Stop Unit}
    {reports : List Report} {disk : Disk π} {state : σ} {file : Bytes}
    (there : disk path = some file)
    (fails : ∀ status, rest (.error status) = .stop (.status status))
    (returned : ((openFile path now >>= rest).exec reports disk state).outcome = .ok ()) :
    ((rest (.ok ⟨some path⟩)).exec reports.tail disk state).outcome = .ok () ∧
      ((openFile path now >>= rest).exec reports disk state).disk =
        ((rest (.ok ⟨some path⟩)).exec reports.tail disk state).disk := by
  have untouched : (Effect.create path).apply disk = disk := by
    rw [Effect.apply, there, Option.getD_some, ← there, Function.update_eq_self]
  simp only [openFile, bind_assoc, Prog.exec_files, there] at returned ⊢
  rw [Prog.exec_act] at returned ⊢
  generalize reports.headD .done = report at returned ⊢
  cases report with
  | done =>
    rw [Effect.after_done, untouched] at returned ⊢
    exact ⟨returned, rfl⟩
  | unsynced =>
    rw [Effect.after_unsynced, untouched] at returned ⊢
    exact ⟨returned, rfl⟩
  | unwritten =>
    simp only [Report.took, Bool.false_eq_true, if_false, pure_bind, fails] at returned
    cases returned
  | refused =>
    simp only [Report.took, Bool.false_eq_true, if_false, pure_bind, fails] at returned
    cases returned

theorem openAndAppend_file {path : π} {now txId : UInt64}
    {entry : SegmentMeta} {reports : List Report}
    {disk : Disk π} {state : σ} {file : Bytes} (there : disk path = some file)
    (returned : ((openAndAppend path now txId entry).exec reports disk state).outcome = .ok ()) :
    ((openAndAppend path now txId entry).exec reports disk state).disk path =
      some (file ++ (transaction txId entry).flatMap JournalRecord.toBytes) := by
  obtain ⟨opened, sameDisk⟩ := open_returned there (fun _ => rfl) returned
  obtain ⟨_, _, begun, returned, afterBegin⟩ := append_returned _ _ there (fun _ => rfl) opened
  obtain ⟨_, _, added, returned, afterAdd⟩ := append_returned _ _ begun (fun _ => rfl) returned
  have last := append_returned ⟨txId, .txCommit⟩ orReturn added (fun _ => rfl) returned
  obtain ⟨_, after, committed, _, afterCommit⟩ := last
  have final : ((openAndAppend path now txId entry).exec reports disk state).disk = after :=
    sameDisk.trans (afterBegin.trans (afterAdd.trans afterCommit))
  rw [final, committed]
  simp [transaction]

/-- What is left behind the whole records is the beginning of the record that was cut, if
anything. -/
def Torn (records : List JournalRecord) (torn : Bytes) : Prop :=
  torn = [] ∨ ∃ record ∈ records, ∃ size < record.toBytes.length, torn = record.toBytes.take size

theorem wholeRecords_split (records : List JournalRecord) (room : Nat) :
    ∃ torn, (records.flatMap JournalRecord.toBytes).take room =
      (wholeRecords room records).flatMap JournalRecord.toBytes ++ torn ∧ Torn records torn := by
  induction records generalizing room with
  | nil => exact ⟨[], by simp [wholeRecords], .inl rfl⟩
  | cons record rest ih =>
    rw [wholeRecords, List.flatMap_cons, List.take_append]
    split
    · next fits =>
      obtain ⟨torn, split, left⟩ := ih (room - record.toBytes.length)
      refine ⟨torn, ?_, ?_⟩
      · rw [List.take_of_length_le fits, split, List.flatMap_cons, List.append_assoc]
      · rcases left with none | ⟨other, listed, cut⟩
        · exact .inl none
        · exact .inr ⟨other, by simp [listed], cut⟩
    · next beyond =>
      rw [Nat.sub_eq_zero_of_le (by omega), List.take_zero]
      exact ⟨_, by simp, .inr ⟨record, by simp, room, by omega, rfl⟩⟩

theorem mem_wholeRecords {records : List JournalRecord} {room : Nat} {record : JournalRecord}
    (listed : record ∈ wholeRecords room records) : record ∈ records := by
  induction records generalizing room with
  | nil => cases listed
  | cons first rest ih =>
    rw [wholeRecords] at listed
    split at listed
    · rcases List.mem_cons.mp listed with rfl | later
      · exact List.mem_cons_self
      · exact List.mem_cons_of_mem _ (ih later)
    · cases listed

theorem wholeRecords_zero {records : List JournalRecord}
    (sized : ∀ record ∈ records, Sized record) :
    wholeRecords 0 records = [] := by
  cases records with
  | nil => rfl
  | cons record rest =>
    rw [wholeRecords, length_toBytes (sized record (by simp)), if_neg (by omega)]

/-- A cut journal: a cut header, or the header, the whole records and the rest of the cut one. -/
theorem take_fileOf (creationTs : UInt64) (records : List JournalRecord) (cut : Nat) :
    (cut < JournalHeader.size ∧ ((fileOf creationTs records).take cut).length = cut) ∨
    (∃ torn, (fileOf creationTs records).take cut = JournalHeader.toBytes creationTs ++
      ((wholeRecords (cut - JournalHeader.size) records).flatMap JournalRecord.toBytes ++ torn) ∧
      (OnBoundary creationTs records cut ↔ torn = [])) := by
  have header := length_header creationTs
  by_cases short : cut < JournalHeader.size
  · refine .inl ⟨short, ?_⟩
    rw [List.length_take, fileOf, List.length_append]
    omega
  · obtain ⟨torn, split, -⟩ := wholeRecords_split records (cut - JournalHeader.size)
    have whole : (fileOf creationTs records).take cut = JournalHeader.toBytes creationTs ++
        ((wholeRecords (cut - JournalHeader.size) records).flatMap
          JournalRecord.toBytes ++ torn) := by
      rw [fileOf, List.take_append, List.take_of_length_le (by omega), header, split]
    refine .inr ⟨torn, whole, ?_⟩
    rw [OnBoundary, whole, wholeSize, List.length_append, List.length_append, header]
    constructor
    · intro same
      exact List.length_eq_zero_iff.mp (by omega)
    · rintro rfl
      simp

/-- The reader reports every transaction committed by the given records, and
the given one as committed. -/
def ReportsCommitted (records : List JournalRecord) (txId : UInt64)
    (read : Except Stop (List RecoveredTx)) : Prop :=
  ∃ txs, read = .ok txs ∧ (∀ tx ∈ groupRecords records, tx.committed = true → tx ∈ txs) ∧
    ∃ tx ∈ txs, tx.txId = txId ∧ tx.committed = true

theorem groupRecords_transaction {records : List JournalRecord}
    {txId : UInt64} (entry : SegmentMeta)
    (fresh : ∀ record ∈ records, record.txId ≠ txId) :
    groupRecords (records ++ transaction txId entry) =
      groupRecords records ++ [{ txId, committed := true, addedSegments := [entry] }] := by
  have absent : txId ∉ (groupRecords records).map (·.txId) := by
    rw [mem_ids_groupRecords]
    rintro ⟨record, listed, same⟩
    exact fresh record listed same
  have grouped := foldl_fresh (groupRecords records) ({ txId })
    [.addSegment entry, .txCommit] absent
  rw [groupRecords, List.foldl_append, ← groupRecords, transaction, List.map_cons, List.foldl_cons,
    groupRecord, updateTx_fresh _ absent]
  exact grouped

theorem not_reports_of_absent (records : List JournalRecord) {txId : UInt64}
    (fresh : ∀ record ∈ records, record.txId ≠ txId) :
    ¬ ReportsCommitted records txId (.ok (groupRecords records)) := by
  rintro ⟨txs, read, _, tx, listed, same, _⟩
  rw [Except.ok.injEq] at read
  subst read
  obtain ⟨record, found, equal⟩ :=
    (mem_ids_groupRecords records tx.txId).mp (List.mem_map_of_mem listed)
  exact fresh record found (equal.trans same)

/-- A transaction appended to a cut journal is reported, with those before it, exactly if the cut
fell between records. -/
theorem append_after_cut_iff {path : π} {now creationTs txId : UInt64} {entry : SegmentMeta}
    {records : List JournalRecord} {cut : Nat} {reports : List Report} {disk : Disk π} {state : σ}
    (writable : ∀ record ∈ records, Writable record) (short : entry.toBytes.length < 2 ^ 32 - 16)
    (there : disk path = some ((fileOf creationTs records).take cut))
    (fresh : ∀ record ∈ wholeRecords (cut - JournalHeader.size) records, record.txId ≠ txId)
    (returned : ((openAndAppend path now txId entry).exec reports disk state).outcome = .ok ())
    (plain : ¬ OnBoundary creationTs records cut → ¬ Misread records cut
      ((fileOf creationTs records).take cut ++
        (transaction txId entry).flatMap JournalRecord.toBytes)) :
    ReportsCommitted (wholeRecords (cut - JournalHeader.size) records) txId
        (readAll (((openAndAppend path now txId entry).exec reports disk state).disk path)) ↔
      OnBoundary creationTs records cut := by
  have wholeWritable : ∀ record ∈ wholeRecords (cut - JournalHeader.size) records,
      Writable record :=
    fun record listed => writable record (mem_wholeRecords listed)
  have newWritable : ∀ record ∈ transaction txId entry, Writable record := by
    simpa [transaction, Writable, JournalOp.payload] using short
  rw [openAndAppend_file there returned]
  rcases take_fileOf creationTs records cut with ⟨cutHeader, length⟩ | ⟨torn, split, boundary⟩
  · have off : ¬ OnBoundary creationTs records cut := by
      rw [OnBoundary, length, wholeSize]
      omega
    refine ⟨fun reported => absurd reported ?_, fun on => absurd on off⟩
    have none : wholeRecords (cut - JournalHeader.size) records = [] := by
      rw [Nat.sub_eq_zero_of_le (by omega), wholeRecords_zero fun record listed =>
        (writable record listed).sized]
    have start : wholeSize records cut = JournalHeader.size := by rw [wholeSize, none]; rfl
    have long : 60 ≤ ((transaction txId entry).flatMap JournalRecord.toBytes).length :=
      length_le_flatMap 20 JournalRecord.toBytes (transaction txId entry) fun record listed => by
        rw [length_toBytes (newWritable record listed).sized]
        omega
    have refused := plain off
    rw [Misread, start] at refused
    rw [readAll, none]
    generalize (fileOf creationTs records).take cut = file at refused ⊢
    generalize (transaction txId entry).flatMap JournalRecord.toBytes = new at refused long ⊢
    rw [if_neg (by rw [List.length_append, JournalHeader.size]; omega)]
    by_cases magic : u32Of (slice (file ++ new) 0 4) = JournalHeader.magic
    · rw [if_neg (not_not_intro magic),
        readRecords_stops (Bool.eq_false_iff.mpr fun read => refused ⟨magic, read⟩)]
      exact not_reports_of_absent [] (by simp)
    · rw [if_pos magic]
      rintro ⟨txs, read, _⟩
      cases read
  · rw [boundary]
    constructor
    · intro reported
      by_contra some
      have refused := plain fun on => some (boundary.mp on)
      rw [split, List.append_assoc, List.append_assoc] at refused reported
      have behind : (JournalHeader.toBytes creationTs ++
          ((wholeRecords (cut - JournalHeader.size) records).flatMap JournalRecord.toBytes ++
            (torn ++ (transaction txId entry).flatMap JournalRecord.toBytes))).drop
              (wholeSize records cut) =
          torn ++ (transaction txId entry).flatMap JournalRecord.toBytes := by
        rw [← List.append_assoc,
          List.drop_left' (by rw [List.length_append, length_header, wholeSize])]
      rw [Misread, behind] at refused
      have stops := Bool.eq_false_iff.mpr fun read => refused ⟨header_magic creationTs _, read⟩
      rw [readAll_records (fun record listed => (wholeWritable record listed).readable)
        creationTs stops] at reported
      exact not_reports_of_absent _ fresh reported
    · rintro rfl
      have file : (fileOf creationTs records).take cut ++
          (transaction txId entry).flatMap JournalRecord.toBytes =
          fileOf creationTs
            (wholeRecords (cut - JournalHeader.size) records ++ transaction txId entry) := by
        rw [split, fileOf, List.flatMap_append, List.append_nil, List.append_assoc]
      rw [file, readAll_fileOf, groupRecords_transaction entry fresh]
      · exact ⟨_, rfl, fun tx listed _ => List.mem_append_left _ listed, _,
          List.mem_append_right _ List.mem_cons_self,
          rfl, rfl⟩
      · intro record listed
        rcases List.mem_append.mp listed with old | new
        · exact wholeWritable record old
        · exact newWritable record new

end Torn

theorem append_after_cut_bare :
    OnBoundary 0 [] 16 ∧
      ReportsCommitted [] 1 (readAll (((openAndAppend () 0 1 {} : Prog Unit Unit Stop Unit).exec []
      (fun _ => some ((fileOf 0 []).take 16)) ()).disk ())) := by
  have on : OnBoundary 0 [] 16 := rfl
  have returned : ((openAndAppend () 0 1 {} : Prog Unit Unit Stop Unit).exec []
      (fun _ => some ((fileOf 0 []).take 16)) ()).outcome = .ok () := rfl
  refine ⟨on, ?_⟩
  have reported := @append_after_cut_iff Unit Unit _ () 0 0 1 {} [] 16 [] _ () (by simp)
    (by rw [length_toBytes_meta]; decide) rfl (by simp [wholeRecords]) returned
      fun off => absurd on off
  exact reported.mpr on

/-- An empty journal file gets no header on opening, so what is appended to it cannot be read. -/
theorem append_after_cut_lost :
    ((openAndAppend () 0 1 {} : Prog Unit Unit Stop Unit).exec []
      (fun _ => some ((fileOf 0 []).take 0)) ()).outcome =
      .ok () ∧
    ¬ ReportsCommitted (wholeRecords (0 - JournalHeader.size) []) 1
      (readAll (((openAndAppend () 0 1 {} : Prog Unit Unit Stop Unit).exec []
        (fun _ => some ((fileOf 0 []).take 0)) ()).disk ())) := by
  refine ⟨rfl, ?_⟩
  rw [@openAndAppend_file Unit Unit _ () 0 1 {} [] _ () [] rfl rfl, List.nil_append, transaction,
    List.map_cons, List.flatMap_cons]
  have long : 20 ≤ (JournalRecord.mk 1 .txBegin).toBytes.length := by
    rw [length_toBytes (show Sized ⟨1, .txBegin⟩ by rw [Sized]; decide)]
    omega
  have first : slice (JournalRecord.mk 1 .txBegin).toBytes 0 4 = (u64 1).take 4 := by
    rw [JournalRecord.toBytes, JournalRecord.bodyBytes, List.append_assoc, slice, List.drop_zero,
      List.take_append_of_le_length (by simp)]
  rintro ⟨txs, read, _⟩
  rw [readAll] at read
  generalize (List.map (JournalRecord.mk 1) [.addSegment {}, .txCommit]).flatMap
    JournalRecord.toBytes = rest at read
  generalize (JournalRecord.mk 1 .txBegin).toBytes = record at read long first
  rw [if_neg (by rw [List.length_append, JournalHeader.size]; omega)] at read
  have magic : u32Of (slice (record ++ rest) 0 4) ≠ JournalHeader.magic := by
    rw [slice, List.drop_zero, List.take_append_of_le_length (by omega)]
    rw [slice, List.drop_zero] at first
    rw [first]
    decide
  rw [if_pos magic] at read
  cases read

end VectorTick.Journal
