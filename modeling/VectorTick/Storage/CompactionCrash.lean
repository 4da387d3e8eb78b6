import VectorTick.Storage.Compaction
import VectorTick.Storage.RecoverAgain

/-! A compaction that dies, and the recovery behind it.

The merged segment lies under a temporary name until its transaction is committed, and recovery
deletes temporary files before it reads the journal. A process that dies in between leaves a
committed removal of the inputs and no merged segment.
-/

set_option autoImplicit false

namespace VectorTick

open Foundation Journal Catalog Manifest SegmentWriter

/-- The files of the directory's segments are as their writers left them, and no active segment is
without one. -/
structure Shelved (disk : Disk Path) (manifest : Manifest)
    (contents : UInt64 → List CanonicalEvent) : Prop where
  written : ∀ segmentId file, disk (segmentPath segmentId) = some file →
    Written file (contents segmentId)
  there : ∀ seg ∈ manifest.activeSegments, (disk (segmentPath seg.segmentId)).isSome

/-- The events of the active segments are still there, in some order, after a crash that leaves the
second disk and the recovery by a fresh catalog. -/
def Survives (disk : Disk Path) (manifest : Manifest) (left : Disk Path) : Prop :=
  ∃ old new, activeEvents disk manifest = .ok old ∧ (freshRecovery left).outcome = .ok () ∧
    activeEvents (freshRecovery left).disk (freshRecovery left).state.manifest =
      .ok new ∧ new.Perm old

/-- The last thing done was to commit a transaction. -/
def EndsCommitted (performed : List (Performed Path)) : Prop :=
  ∃ txId, performed.getLast? =
    some (.append journalPath (JournalRecord.mk txId .txCommit).toBytes, .done)

/-- A file was moved to the name of a segment. -/
def MovedIn (performed : List (Performed Path)) : Prop :=
  ∃ step ∈ performed, ∃ source segmentId, step.1 = .rename source (segmentPath segmentId)

section Active

variable {disk left : Disk Path} {saved saved' manifest : Manifest}
  {history : List Attempt} {limit limit' : Nat}
  {catalog : Catalog} {contents : UInt64 → List CanonicalEvent}

theorem Shelved.valid (shelved : Shelved disk manifest contents) {segmentId : UInt64}
    (present : (disk (segmentPath segmentId)).isSome) :
    fileValid (disk (segmentPath segmentId)) = true := by
  obtain ⟨file, there⟩ := Option.isSome_iff_exists.mp present
  rw [there, fileValid, segmentValid_of_reads (shelved.written segmentId file there).readable]
  rfl

theorem Shelved.stocked (shelved : Shelved disk manifest contents) (sound : manifest.Sound) :
    Stocked disk manifest contents := by
  intro seg listed
  obtain ⟨file, there⟩ := Option.isSome_iff_exists.mp (shelved.there seg listed)
  have path : Path.root seg.filename = segmentPath seg.segmentId :=
    congrArg Path.root (sound.named seg (mem_activeSegments.mp listed).1)
  exact ⟨file, path ▸ there, shelved.written seg.segmentId file there⟩

theorem Shelved.holding (shelved : Shelved disk manifest contents) (sound : manifest.Sound) :
    Holding disk manifest contents := (shelved.stocked sound).holding

theorem not_dropped {txId segmentId : UInt64}
    (keeps : ∀ attempt ∈ history, removes attempt.op = []) :
    ¬ Dropped history txId segmentId := by
  rintro ⟨remover, listed, -, removal, -⟩
  unfold Attempt.removed at removal
  split at removal
  · cases removal
  · rw [keeps remover listed] at removal
    cases removal

theorem active_iff_owner (session : InSession disk saved history limit catalog)
    (keeps : ∀ attempt ∈ history, removes attempt.op = [])
    (shelved : Shelved disk catalog.manifest contents)
    (entry : SegmentMeta) :
    entry ∈ catalog.activeSegments ↔ ∃ attempt, Owner history attempt ∧ attempt.entry = entry ∧
      (disk (segmentPath entry.segmentId)).isSome := by
  constructor
  · intro listed
    obtain ⟨attempt, owner, same⟩ := session.live keeps entry listed
    exact ⟨attempt, owner, same, shelved.there entry listed⟩
  · rintro ⟨attempt, owner, rfl, present⟩
    exact session.covered attempt owner (shelved.valid present) (not_dropped keeps)

theorem Shelved.valid_iff (shelved : Shelved disk manifest contents) (segmentId : UInt64) :
    fileValid (disk (segmentPath segmentId)) = true ↔ (disk (segmentPath segmentId)).isSome :=
  ⟨isSome_of_fileValid, shelved.valid⟩

theorem Shelved.none_or_valid (shelved : Shelved disk manifest contents) (segmentId : UInt64) :
    disk (segmentPath segmentId) = none ∨ fileValid (disk (segmentPath segmentId)) = true := by
  rw [shelved.valid_iff]
  cases disk (segmentPath segmentId) with
  | none => exact .inl rfl
  | some file => exact .inr rfl

theorem mem_recovered_alone (session : InSession disk saved history limit catalog)
    (keeps : ∀ attempt ∈ history, removes attempt.op = [])
    (shelved : Shelved disk catalog.manifest contents)
    (recorded : Recorded left saved' history limit')
    (same : ∀ segmentId, left (segmentPath segmentId) = disk (segmentPath segmentId))
    (result : recovered left {} = .ok manifest) (entry : SegmentMeta) :
    entry ∈ manifest.activeSegments ↔ entry ∈ catalog.activeSegments := by
  rw [recorded.mem_recovered result, active_iff_owner session keeps shelved]
  refine exists_congr fun attempt => and_congr_right fun _ => and_congr_right fun _ => ?_
  rw [same, shelved.valid_iff]
  exact and_iff_left (not_dropped keeps)

theorem InSession.apart (session : InSession disk saved history limit catalog)
    {added attempt : Attempt}
    (id : added.entry.segmentId = catalog.manifest.nextSegmentId)
    (present : (disk (segmentPath attempt.entry.segmentId)).isSome) :
    added.entry.segmentId ≠ attempt.entry.segmentId := by
  intro same
  have below := session.segments _ present
  rw [← same, id] at below
  exact absurd below (lt_irrefl _)

theorem mem_recovered_open (session : InSession disk saved history limit catalog)
    (keeps : ∀ attempt ∈ history, removes attempt.op = [])
    (shelved : Shelved disk catalog.manifest contents)
    {added : Attempt} (open' : added.stage ≠ .committed)
    (txId : added.txId = catalog.manifest.nextTxId)
    (id : added.entry.segmentId = catalog.manifest.nextSegmentId)
    (recorded : Recorded left saved' (history ++ [added]) limit')
    (same : ∀ segmentId, left (segmentPath segmentId) = disk (segmentPath segmentId))
    (result : recovered left {} = .ok manifest) (entry : SegmentMeta) :
    entry ∈ manifest.activeSegments ↔ entry ∈ catalog.activeSegments := by
  rw [recorded.mem_recovered result, active_iff_owner session keeps shelved]
  constructor
  · rintro ⟨attempt, owner, rfl, valid, -⟩
    rw [same, shelved.valid_iff] at valid
    rcases owner_snoc owner with ⟨-, committed⟩ | ⟨old, -⟩
    · exact absurd committed open'
    · exact ⟨attempt, old, rfl, valid⟩
  · rintro ⟨attempt, owner, rfl, present⟩
    refine ⟨attempt, Recorded.owner_append owner (session.apart id present), rfl, ?_, ?_⟩
    · rw [same, shelved.valid_iff]
      exact present
    · -- Only the new attempt removes anything, and nothing of its transaction is committed.
      rintro ⟨remover, listed, -, removal, witness, among, sameTx, committed⟩
      rcases List.mem_append.mp listed with old | new
      · exact not_dropped keeps ⟨remover, old, le_rfl, removal, remover, old, rfl, by
          unfold Attempt.removed at removal
          split at removal
          · cases removal
          · rw [keeps remover old] at removal
            cases removal⟩
      · rw [List.mem_singleton.mp new, txId] at sameTx
        rcases List.mem_append.mp among with before | last
        · have below := (session.issued witness before).2 committed
          rw [sameTx] at below
          exact absurd below (lt_irrefl _)
        · rw [List.mem_singleton.mp last] at committed
          exact open' committed

/-- A committed transaction takes out what it removes, and brings in what it adds if its file is
valid. -/
theorem mem_recovered_committed (session : InSession disk saved history limit catalog)
    (keeps : ∀ attempt ∈ history, removes attempt.op = [])
    (shelved : Shelved disk catalog.manifest contents)
    {added : Attempt} (committed : added.stage = .committed)
    (txId : added.txId = catalog.manifest.nextTxId)
    (id : added.entry.segmentId = catalog.manifest.nextSegmentId)
    (notListed : added.entry.segmentId ∉ removes added.op)
    (recorded : Recorded left saved' (history ++ [added]) limit')
    (same : ∀ segmentId ∉ removes added.op, segmentId ≠ catalog.manifest.nextSegmentId →
      left (segmentPath segmentId) = disk (segmentPath segmentId))
    (result : recovered left {} = .ok manifest) (entry : SegmentMeta) :
    entry ∈ manifest.activeSegments ↔
      (entry ∈ catalog.activeSegments ∧ entry.segmentId ∉ removes added.op) ∨
      (entry = added.entry ∧ fileValid (left (segmentPath entry.segmentId)) = true) := by
  have kept : ∀ segmentId ∉ removes added.op, ∀ txId,
      ¬ Dropped (history ++ [added]) txId segmentId := by
    rintro segmentId apart txId ⟨remover, listed, -, removal, -⟩
    have inside : segmentId ∈ removes remover.op := by
      unfold Attempt.removed at removal
      split at removal
      · cases removal
      · exact removal
    rcases List.mem_append.mp listed with old | new
    · rw [keeps remover old] at inside
      cases inside
    · rw [List.mem_singleton.mp new] at inside
      exact apart inside
  rw [recorded.mem_recovered result, active_iff_owner session keeps shelved]
  constructor
  · rintro ⟨attempt, owner, rfl, valid, undropped⟩
    rcases owner_snoc owner with ⟨rfl, -⟩ | ⟨old, apart⟩
    · exact .inr ⟨rfl, valid⟩
    · have outside : attempt.entry.segmentId ∉ removes added.op :=
        fun inside => undropped (dropped_last
        (txId ▸ (session.issued attempt (Recorded.mem_of_owner old).1).1) committed inside)
      rw [same _ outside fun other => apart (id.trans other.symm), shelved.valid_iff] at valid
      exact .inl ⟨⟨attempt, old, rfl, valid⟩, outside⟩
  · rintro (⟨⟨attempt, owner, rfl, present⟩, outside⟩ | ⟨rfl, valid⟩)
    · have apart := session.apart id present
      refine ⟨attempt, Recorded.owner_append owner apart, rfl, ?_, kept _ outside _⟩
      rw [same _ outside fun other => apart (id.trans other.symm), shelved.valid_iff]
      exact present
    · exact ⟨added, owner_last committed, rfl, valid, kept _ notListed _⟩

theorem nodup_activeSegments (distinct : Distinct manifest.segments) :
    manifest.activeSegments.Nodup :=
  (nodup_active distinct).of_map

theorem resaved_segmentPath (disk : Disk Path) (manifest : Manifest) (segmentId : UInt64) :
    resaved disk manifest (segmentPath segmentId) = disk (segmentPath segmentId) := by
  rw [resaved, Function.update_of_ne (segmentPath_ne_manifest segmentId),
    swept_of_not (isTemporary_segmentPath segmentId)]

theorem segmentEvents_named {seg : SegmentMeta} (named : Named seg)
    (same : left (segmentPath seg.segmentId) = disk (segmentPath seg.segmentId)) :
    segmentEvents left seg = segmentEvents disk seg := by
  have path : Path.root seg.filename = segmentPath seg.segmentId := congrArg Path.root named
  exact segmentEvents_congr (by rw [path, same])

/-- The events of a segment, or none if they cannot be read. -/
def eventsOf (disk : Disk Path) (seg : SegmentMeta) : List CanonicalEvent :=
  (segmentEvents disk seg).toOption.getD []

theorem segmentsEvents_each {segments : List SegmentMeta} {events : List CanonicalEvent}
    (read : segmentsEvents disk segments = .ok events) :
    (∀ seg ∈ segments, segmentEvents disk seg = .ok (eventsOf disk seg)) ∧
      events = segments.flatMap (eventsOf disk) := by
  have all : ∀ seg ∈ segments, segmentEvents disk seg = .ok (eventsOf disk seg) := by
    induction segments generalizing events with
    | nil => exact fun seg listed => by cases listed
    | cons first rest ih =>
      rw [segmentsEvents] at read
      cases head : segmentEvents disk first with
      | error stop =>
        rw [head, error_bind] at read
        cases read
      | ok one =>
        rw [head, ok_bind] at read
        cases tail : segmentsEvents disk rest with
        | error stop =>
          rw [tail, error_bind] at read
          cases read
        | ok others =>
          refine List.forall_mem_cons.mpr ⟨?_, ih tail⟩
          rw [eventsOf, head]
          rfl
  exact ⟨all, Except.ok.inj (read.symm.trans (segmentsEvents_eq all))⟩

theorem survives_kept (sound : catalog.manifest.Sound)
    (shelved : Shelved disk catalog.manifest contents)
    (distinct : Distinct manifest.segments)
    (same : ∀ segmentId, left (segmentPath segmentId) = disk (segmentPath segmentId))
    (result : recovered (swept left) {} = .ok manifest)
    (mem : ∀ entry, entry ∈ manifest.activeSegments ↔ entry ∈ catalog.activeSegments) :
    Survives disk catalog.manifest left := by
  have run : freshRecovery left = _ := recover_exec {} result
  have holding := shelved.holding sound
  have later : Holding (resaved left manifest) manifest contents := by
    intro seg listed
    have old := (mem seg).mp listed
    have named : Named seg := sound.named seg (mem_activeSegments.mp old).1
    rw [← holding seg old]
    exact segmentEvents_named named (by rw [resaved_segmentPath, same])
  refine ⟨_, manifest.activeSegments.flatMap fun seg => contents seg.segmentId,
    activeEvents_eq holding, by rw [run], ?_,
    ?_⟩
  · rw [run]
    dsimp only
    rw [resaved_eq]
    exact activeEvents_eq later
  · refine List.Perm.flatMap_right _ ?_
    exact (List.perm_ext_iff_of_nodup (nodup_activeSegments distinct)
      (nodup_activeSegments sound.distinct)).mpr mem

/-- What is active once the transaction is recovered. -/
structure Recovers (disk left : Disk Path) (before manifest : Manifest) (ids : List UInt64)
    (new : SegmentMeta) : Prop where
  distinct : Distinct manifest.segments
  same : ∀ segmentId ∉ ids, segmentId ≠ new.segmentId →
    left (segmentPath segmentId) = disk (segmentPath segmentId)
  active : ∀ entry, entry ∈ manifest.activeSegments ↔
    (entry ∈ before.activeSegments ∧ entry.segmentId ∉ ids) ∨
    (entry = new ∧ fileValid (left (segmentPath entry.segmentId)) = true)

section Installed

variable {ids : List UInt64} {new : SegmentMeta}

/-- The segments that are not listed. -/
def others (manifest : Manifest) (ids : List UInt64) : List SegmentMeta :=
  manifest.activeSegments.filter (·.segmentId ∉ ids)

theorem mem_others {entry : SegmentMeta} :
    entry ∈ others manifest ids ↔ entry ∈ manifest.activeSegments ∧ entry.segmentId ∉ ids := by
  rw [others, List.mem_filter, decide_eq_true_eq]

theorem others_ne (sound : manifest.Sound)
    (id : new.segmentId = manifest.nextSegmentId) {seg : SegmentMeta}
    (listed : seg ∈ others manifest ids) : seg.segmentId ≠ new.segmentId := by
  intro same
  have below := sound.below seg (mem_activeSegments.mp (mem_others.mp listed).1).1
  rw [same, id] at below
  exact absurd below (lt_irrefl _)

theorem Recovers.perm {before : Manifest} (recovers : Recovers disk left before manifest ids new)
    (sound : before.Sound)
    (id : new.segmentId = before.nextSegmentId) :
    manifest.activeSegments.Perm
      (others before ids ++ if fileValid (left (segmentPath new.segmentId)) =
        true then [new] else []) := by
  have once : (others before ids).Nodup := (nodup_activeSegments sound.distinct).filter _
  refine (List.perm_ext_iff_of_nodup (nodup_activeSegments recovers.distinct) ?_).mpr
    fun entry => ?_
  · split
    · refine List.nodup_append.mpr ⟨once, List.nodup_singleton new, ?_⟩
      intro seg listed other single same
      exact others_ne sound id listed
        (congrArg SegmentMeta.segmentId (same.trans (List.mem_singleton.mp single)))
    · rwa [List.append_nil]
  · rw [recovers.active, List.mem_append, mem_others]
    refine or_congr Iff.rfl ?_
    split
    · next valid =>
      rw [List.mem_singleton]
      exact ⟨And.left, fun same => ⟨same, same ▸ valid⟩⟩
    · next invalid =>
      refine ⟨fun both => absurd (both.1 ▸ both.2) invalid, fun listed => by cases listed⟩

theorem others_perm (sound : manifest.Sound) (once : ids.Nodup)
    (active : ∀ segmentId ∈ ids, segmentId ∈ manifest.activeSegments.map (·.segmentId)) :
    ((others manifest ids).flatMap (fun seg => contents seg.segmentId) ++ ids.flatMap contents).Perm
      (manifest.activeSegments.flatMap fun seg => contents seg.segmentId) :=
  ((listed_perm sound.distinct once active).symm.append_left _).trans
    (flatMap_split manifest.activeSegments ids contents)

/-- The events survive the recovery of a committed transaction exactly if it goes through, finds the
merged segment valid, and reads the merged events from it. -/
theorem survives_installed_iff (sound : catalog.manifest.Sound)
    (shelved : Shelved disk catalog.manifest contents)
    (id : new.segmentId = catalog.manifest.nextSegmentId) (named : Named new) (once : ids.Nodup)
    (active : ∀ segmentId ∈ ids, segmentId ∈ catalog.manifest.activeSegments.map (·.segmentId))
    (some : ids.flatMap contents ≠ [])
    (recovers : ∀ manifest, recovered (swept left) {} = .ok manifest →
      Recovers disk left catalog.manifest manifest ids new) :
    Survives disk catalog.manifest left ↔ (∃ manifest, recovered (swept left) {} = .ok manifest) ∧
      fileValid (left (segmentPath new.segmentId)) = true ∧
        ∃ read, segmentEvents left new = .ok read ∧ read.Perm (ids.flatMap contents) := by
  have holding := shelved.holding sound
  have before := activeEvents_eq holding
  have split := @others_perm catalog.manifest contents ids sound once active
  -- What is read of the others, and of the new segment, once a recovery has gone through.
  have kept : ∀ manifest, recovered (swept left) {} = .ok manifest →
      ∀ seg ∈ others catalog.manifest ids,
      segmentEvents (resaved left manifest) seg = .ok (contents seg.segmentId) := by
    intro manifest result seg listed
    obtain ⟨old, outside⟩ := mem_others.mp listed
    rw [← holding seg old]
    refine segmentEvents_named (sound.named seg (mem_activeSegments.mp old).1) ?_
    rw [resaved_segmentPath, (recovers manifest result).same _ outside (others_ne sound id listed)]
  have merged : ∀ manifest, segmentEvents (resaved left manifest) new = segmentEvents left new :=
    fun manifest => segmentEvents_named named (resaved_segmentPath left manifest new.segmentId)
  constructor
  · rintro ⟨old, all, readOld, succeeded, readAll, same⟩
    obtain ⟨manifest, result, files, state⟩ := freshRecovery_ok succeeded
    obtain rfl := Except.ok.inj (before.symm.trans readOld)
    rw [files, state] at readAll
    obtain ⟨each, rfl⟩ := segmentsEvents_each readAll
    have perm := (recovers manifest result).perm sound id
    have front : (others catalog.manifest ids).flatMap (eventsOf (resaved left manifest)) =
        (others catalog.manifest ids).flatMap fun seg => contents seg.segmentId := by
      refine List.flatMap_congr fun seg listed => ?_
      rw [eventsOf, kept manifest result seg listed]
      rfl
    have parts :=
      (perm.flatMap_right (eventsOf (resaved left manifest))).symm.trans (same.trans split.symm)
    rw [List.flatMap_append, front, List.perm_append_left_iff] at parts
    refine ⟨⟨manifest, result⟩, ?_⟩
    by_cases valid : fileValid (left (segmentPath new.segmentId)) = true
    · rw [if_pos valid] at parts perm
      have listed : new ∈ manifest.activeSegments :=
        perm.mem_iff.mpr (List.mem_append_right _ List.mem_cons_self)
      refine ⟨valid, eventsOf (resaved left manifest) new, ?_, by simpa using parts⟩
      rw [← merged manifest, each new listed]
    · rw [if_neg valid] at parts
      exact absurd (List.nil_perm.mp parts) some
  · rintro ⟨⟨manifest, result⟩, valid, read, readNew, same⟩
    have run : freshRecovery left = _ := recover_exec {} result
    have perm := (recovers manifest result).perm sound id
    rw [if_pos valid] at perm
    have each : ∀ seg ∈ manifest.activeSegments, segmentEvents (resaved left manifest) seg =
        .ok (eventsOf (resaved left manifest) seg) := by
      intro seg listed
      rw [eventsOf]
      rcases List.mem_append.mp (perm.mem_iff.mp listed) with old | last
      · rw [kept manifest result seg old]
        rfl
      · rw [List.mem_singleton.mp last, merged, readNew]
        rfl
    refine ⟨_, manifest.activeSegments.flatMap (eventsOf (resaved left manifest)),
      before, by rw [run], ?_, ?_⟩
    · rw [run]
      dsimp only
      rw [resaved_eq]
      exact segmentsEvents_eq each
    · have front : (others catalog.manifest ids).flatMap (eventsOf (resaved left manifest)) =
          (others catalog.manifest ids).flatMap fun seg => contents seg.segmentId := by
        refine List.flatMap_congr fun seg listed => ?_
        rw [eventsOf, kept manifest result seg listed]
        rfl
      refine (perm.flatMap_right _).trans (List.Perm.trans ?_ split)
      rw [List.flatMap_append, front, List.flatMap_singleton, eventsOf, merged, readNew]
      exact same.append_left _

end Installed

end Active

theorem type_of_toBytes {first second : JournalRecord} (one : Sized first) (two : Sized second)
    (same : first.toBytes = second.toBytes) : first.op.type = second.op.type := by
  have types := (fields_toBytes one []).2.1
  rw [same, (fields_toBytes two []).2.1] at types
  rw [← u32Of_u32 first.op.type, ← types, u32Of_u32]

section Places

variable {disk : Disk Path} {saved : Manifest} {history : List Attempt}
  {limit : Nat} {catalog : Catalog}
  {contents : UInt64 → List CanonicalEvent} {host : Host} {ids : List UInt64}
  {events : List CanonicalEvent} {file : Bytes}
  {entry : SegmentMeta}

theorem compactEffects_eq (manifest : Manifest) (ids : List UInt64)
    (file : Bytes) (entry : SegmentMeta) :
    compactEffects manifest ids file entry =
      [.write (compactTmpPath manifest.nextSegmentId) file,
        .append journalPath (JournalRecord.mk manifest.nextTxId .txBegin).toBytes,
        .append journalPath (JournalRecord.mk manifest.nextTxId
          (.compactSegments ids [entry])).toBytes,
        .append journalPath (JournalRecord.mk manifest.nextTxId .txCommit).toBytes] ++
      installRest (compactTmpPath manifest.nextSegmentId) manifest.nextSegmentId (installManifest manifest ids entry) ids :=
  rfl

theorem take_behind_commit (manifest : Manifest) (ids : List UInt64) (file : Bytes) (entry : SegmentMeta) (more : Nat) :
    (done (compactEffects manifest ids file entry)).take (5 + more) =
      done (compactEffects manifest ids file entry |>.take 4) ++
        (done (installRest (compactTmpPath manifest.nextSegmentId) manifest.nextSegmentId
          (installManifest manifest ids entry) ids)).take (more + 1) := by
  rw [show 5 + more = more + 5 by omega]
  rfl

/-- A compaction dies with its transaction committed and its file not in place exactly behind its
fourth effect. -/
theorem endsCommitted_iff (fits : Fits ids) (named : Named entry) (manifest : Manifest) (file : Bytes) (count : Nat) :
    EndsCommitted ((done (compactEffects manifest ids file entry)).take count) ↔ count = 4 := by
  have short : Writable ⟨manifest.nextTxId, .compactSegments ids [entry]⟩ := by
    have name := length_segmentName entry.segmentId
    unfold Fits at fits
    unfold Writable
    rw [length_compact_payload, named]
    omega
  have appended {txId : UInt64} {record : JournalRecord} (fitting : Writable record)
      (same : ((Effect.append journalPath record.toBytes, Report.done) : Performed Path) =
        (.append journalPath (JournalRecord.mk txId .txCommit).toBytes, .done)) : record.op.type = 5 :=
    type_of_toBytes fitting.sized (writable_empty rfl).sized (Effect.append.inj (Prod.mk.inj same).1).2
  constructor
  · rintro ⟨txId, last⟩
    match count with
    | 0 => cases last
    | 1 => cases last
    | 2 => exact absurd (appended (writable_empty rfl)
        (Option.some.inj last)) (show (1 : UInt32) ≠ 5 by decide)
    | 3 => exact absurd (appended short (Option.some.inj last)) (show (4 : UInt32) ≠ 5 by decide)
    | 4 => rfl
    | more + 5 =>
      rw [Nat.add_comm, take_behind_commit] at last
      have some : (done (installRest (compactTmpPath manifest.nextSegmentId) manifest.nextSegmentId
          (installManifest manifest ids entry) ids)).take (more + 1) ≠ [] := List.cons_ne_nil _ _
      rw [List.getLast?_append_of_ne_nil _ some] at last
      obtain ⟨effect, among, same⟩ :=
        List.mem_map.mp (List.mem_of_mem_take (List.mem_of_getLast? last))
      have append := (Prod.mk.inj same).1
      rcases installRest_cases among with ⟨_, _, rfl⟩ | ⟨_, _, rfl⟩ | ⟨_, rfl⟩ <;> cases append
  · rintro rfl
    exact ⟨manifest.nextTxId, rfl⟩

theorem movedIn_iff (manifest : Manifest) (ids : List UInt64) (file : Bytes)
    (entry : SegmentMeta) (count : Nat) :
    MovedIn ((done (compactEffects manifest ids file entry)).take count) ↔ 5 ≤ count := by
  constructor
  · rintro ⟨step, listed, source, segmentId, moves⟩
    by_contra early
    have first : step ∈ done (compactEffects manifest ids file entry |>.take 4) := by
      rw [← take_done]
      exact List.take_subset_take_left _ (by omega) listed
    simp only [compactEffects_eq, List.take_left', List.length_cons, List.length_nil, done,
      List.map_cons, List.map_nil, List.mem_cons, List.not_mem_nil, or_false] at first
    rcases first with rfl | rfl | rfl | rfl <;> cases moves
  · intro late
    obtain ⟨more, rfl⟩ := Nat.exists_eq_add_of_le late
    rw [take_behind_commit]
    exact ⟨_, List.mem_append_right _ List.mem_cons_self, _, _, rfl⟩

theorem recovers_valid {left : Disk Path} {saved' : Manifest} {longer : List Attempt} {limit' : Nat}
    (recorded : Recorded left saved' longer limit')
    (valid : ∀ segmentId, left (segmentPath segmentId) = none ∨
      fileValid (left (segmentPath segmentId)) = true) :
    ∃ manifest, recovered (swept left) {} = .ok manifest := by
  refine (recorded.untouched (untouched_swept left) le_rfl recorded.small).recovers
    fun segmentId => ?_
  rw [(untouched_swept left).segments]
  rcases valid segmentId with none | good
  · rw [none]
    exact ⟨false, rfl⟩
  · cases answer : segmentValid (left (segmentPath segmentId)) with
    | ok result => exact ⟨result, rfl⟩
    | error stop =>
      rw [fileValid, answer] at good
      cases good

theorem survives_uncommitted {left : Disk Path} {saved' : Manifest} {limit' : Nat}
    (session : InSession disk saved history limit catalog)
    (keeps : ∀ attempt ∈ history, removes attempt.op = [])
    (shelved : Shelved disk catalog.manifest contents)
    (same : ∀ segmentId, left (segmentPath segmentId) = disk (segmentPath segmentId))
    (recorded : Recorded left saved' history limit' ∨
      ∃ added, Recorded left saved' (history ++ [added]) limit' ∧
      added.stage ≠ .committed ∧ added.txId = catalog.manifest.nextTxId ∧
      added.entry.segmentId = catalog.manifest.nextSegmentId) :
      Survives disk catalog.manifest left := by
  have valid : ∀ segmentId, left (segmentPath segmentId) = none ∨
      fileValid (left (segmentPath segmentId)) = true := by
    intro segmentId
    rw [same]
    exact shelved.none_or_valid segmentId
  have swept' : ∀ segmentId, swept left (segmentPath segmentId) = disk (segmentPath segmentId) :=
    fun segmentId =>
    ((untouched_swept left).segments segmentId).trans (same segmentId)
  rcases recorded with alone | ⟨added, recorded, open', txId, id⟩
  · obtain ⟨manifest, result⟩ := recovers_valid alone valid
    have clean := alone.untouched (untouched_swept left) le_rfl alone.small
    exact survives_kept session.sound shelved (clean.restored result).sound.distinct same result
      (mem_recovered_alone session keeps shelved clean swept' result)
  · obtain ⟨manifest, result⟩ := recovers_valid recorded valid
    have clean := recorded.untouched (untouched_swept left) le_rfl recorded.small
    exact survives_kept session.sound shelved (clean.restored result).sound.distinct same result
      (mem_recovered_open session keeps shelved open' txId id clean swept' result)

/-- The disk that a crash behind the commit record leaves, that many
effects into the transaction. -/
structure LeftBehind (disk left : Disk Path) (manifest : Manifest) (ids : List UInt64)
    (file : Bytes) (entry : SegmentMeta)
    (step : Nat) : Prop where
  recorded : ∃ saved history limit, Recorded left saved history limit
  segments : ∀ segmentId, left (segmentPath segmentId) =
    if step < 4 then disk (segmentPath segmentId) else if segmentId ∈ ids.take (step - 6) then none
    else if segmentId = manifest.nextSegmentId then some file else disk (segmentPath segmentId)
  merged : left (segmentPath entry.segmentId) = if step = 3 then none else some file
  recovers : ∀ after, recovered (swept left) {} = .ok after →
    Recovers disk left manifest after ids entry

section Compacting

variable (recorded : Recorded disk saved history limit)
  (session : InSession disk saved history limit catalog)
  (keeps : ∀ attempt ∈ history, removes attempt.op = [])
  (shelved : Shelved disk catalog.manifest contents)
  (room : limit + 1 < 2 ^ 64) (fits : Fits ids)
  (active : ∀ segmentId ∈ ids, segmentId ∈ catalog.manifest.activeSegments.map (·.segmentId))
  (compacts : Compacts host disk catalog.manifest ids events file entry)
include session compacts

include shelved active in
theorem merged_events : ids.flatMap contents = events :=
  Except.ok.inj
    ((collectEvents_eq session.sound.distinct (shelved.holding session.sound) active).symm.trans
    compacts.collected)

include active fits in
theorem entry_unlisted : entry.segmentId ∉ ids := by
  intro among
  obtain ⟨seg, found, same⟩ := List.mem_map.mp (active _ among)
  have below := session.sound.below seg (mem_activeSegments.mp found).1
  rw [same, (compact_installs compacts fits).id] at below
  exact absurd below (lt_irrefl _)

include recorded keeps shelved room fits in
theorem survives_before_commit {count : Nat} (early : count ≤ 3) :
    Survives disk catalog.manifest
      (applyAll disk ((done (compactEffects catalog.manifest ids file entry)).take count)) := by
  have performs := compact_performs compacts fits
  have installs := performs.installs
  rcases Nat.eq_zero_or_pos count with none | positive
  · rw [none]
    exact survives_uncommitted session keeps shelved (fun _ => rfl) (.inl recorded)
  obtain ⟨step, rfl⟩ : ∃ step, count = 1 + step := ⟨count - 1, by omega⟩
  have place := performs.disk_at step
  rw [List.length_singleton] at place
  rw [place]
  rcases Nat.eq_zero_or_pos step with none | begun
  · rw [none]
    exact survives_uncommitted session keeps shelved installs.untouched.segments
      (.inl (recorded.untouched installs.untouched (Nat.le_succ limit) room))
  obtain ⟨creationTs, journal⟩ := session.journal
  obtain ⟨-, -, segments⟩ :=
    @install_observed _ _ file catalog.manifest.nextTxId catalog.manifest.nextSegmentId
    (.compactSegments ids [entry]) _ (installManifest catalog.manifest ids entry) ids step
    (installs.untouched.journal.trans journal) installs.foreign fun _ => performs.found
  have after := @install_recorded _ _ _ _ _ _ _ _ _ _ file recorded session installs room step begun
    fun _ => performs.found
  refine survives_uncommitted session keeps shelved ?_ (.inr ⟨_, after, ?_, rfl, installs.id⟩)
  · intro segmentId
    rw [segments, if_pos (by omega), installs.untouched.segments]
  · change stageAt step ≠ .committed
    unfold stageAt
    split
    · exact Stage.noConfusion
    · rw [if_pos (by omega)]
      exact Stage.noConfusion

include recorded keeps shelved room fits active in
theorem leftBehind {step : Nat} (late : 3 ≤ step) :
    LeftBehind disk
      (applyAll disk ((done (compactEffects catalog.manifest ids file entry)).take (1 + step)))
      catalog.manifest ids file entry step := by
  have performs := compact_performs compacts fits
  have installs := performs.installs
  have place := performs.disk_at step
  rw [List.length_singleton] at place
  rw [place]
  obtain ⟨creationTs, journal⟩ := session.journal
  obtain ⟨-, -, segments⟩ :=
    @install_observed _ _ file catalog.manifest.nextTxId catalog.manifest.nextSegmentId
    (.compactSegments ids [entry]) _ (installManifest catalog.manifest ids entry) ids step
    (installs.untouched.journal.trans journal) installs.foreign fun _ => performs.found
  simp only [installs.untouched.segments] at segments
  have after :=
    @install_recorded _ _ _ _ _ _ _ _ _ _ file recorded session installs room step (by omega)
    fun _ => performs.found
  generalize applyAll _
    ((done (installEffects catalog.manifest.nextTxId (.compactSegments ids [entry])
    (compactTmpPath catalog.manifest.nextSegmentId) catalog.manifest.nextSegmentId
    (installManifest catalog.manifest ids entry) ids)).take step) = left at segments after ⊢
  have committed : stageAt step = .committed := by
    unfold stageAt
    rw [if_neg (by omega), if_neg (by omega)]
  rw [committed] at after
  have clean := after.untouched (untouched_swept left) le_rfl after.small
  have outside := entry_unlisted session fits active compacts
  have same : ∀ segmentId ∉ ids, segmentId ≠ catalog.manifest.nextSegmentId →
      left (segmentPath segmentId) = disk (segmentPath segmentId) := by
    intro segmentId unlisted old
    rw [segments]
    by_cases uninstalled : step < 4
    · rw [if_pos uninstalled]
    · rw [if_neg uninstalled, if_neg fun listed =>
        unlisted (List.mem_of_mem_take listed), if_neg old]
  refine ⟨⟨_, _, _, after⟩, segments, ?_, fun manifest result =>
    ⟨?_, fun segmentId unlisted old => ?_, fun other => ?_⟩⟩
  · rw [segments, installs.id]
    split
    · rw [if_pos (by omega)]
      cases there : disk (segmentPath catalog.manifest.nextSegmentId) with
      | none => rfl
      | some old => exact absurd (session.segments _ (by rw [there]; rfl)) (lt_irrefl _)
    · rw [if_neg fun listed => outside (installs.id ▸ List.mem_of_mem_take listed),
        if_pos rfl, if_neg (by omega)]
  · exact (clean.restored result).sound.distinct
  · exact same segmentId unlisted (installs.id ▸ old)
  · have found := mem_recovered_committed session keeps shelved rfl rfl installs.id outside clean
      (fun segmentId unlisted old => ((untouched_swept left).segments segmentId).trans
        (same segmentId unlisted old))
      result other
    rwa [(untouched_swept left).segments] at found

include recorded keeps shelved room fits active in
theorem lost_committed (once : ids.Nodup) :
    ¬ Survives disk catalog.manifest
      (applyAll disk ((done (compactEffects catalog.manifest ids file entry)).take 4)) := by
  have installs := compact_installs compacts fits
  have behind := leftBehind recorded session keeps shelved room fits active compacts (le_refl 3)
  have some := compacts.nonempty
  rw [← merged_events session shelved active compacts] at some
  rw [survives_installed_iff session.sound shelved installs.id installs.named once
    active some behind.recovers,
    behind.merged]
  rintro ⟨-, valid, -⟩
  cases valid

include recorded keeps shelved room fits active in
theorem survives_moved (once : ids.Nodup)
    (small : eventsLayoutEnd (host.order.sort events) < 2 ^ 32) {count : Nat}
    (late : 5 ≤ count) :
    Survives disk catalog.manifest
      (applyAll disk ((done (compactEffects catalog.manifest ids file entry)).take count)) := by
  obtain ⟨step, rfl⟩ : ∃ step, count = 1 + step := ⟨count - 1, by omega⟩
  have installs := compact_installs compacts fits
  have behind :=
    leftBehind recorded session keeps shelved room fits active compacts (show 3 ≤ step by omega)
  have permuted := host.order.perm events
  obtain ⟨fresh, writer, created, added, written⟩ := compacts.written
  obtain ⟨reader, opened, validated, read⟩ : SegmentReader.Reads file (host.order.sort events) :=
    SegmentReader.writeToFile_reads_small (holds_of_addEvents created added)
      (fun none => compacts.nonempty (List.perm_nil.mp (none ▸ permuted.symm))) small written
  have valid : fileValid (some file) = true := by
    rw [fileValid, segmentValid_of_reads ⟨reader, opened, validated, read⟩]
    rfl
  obtain rfl := merged_events session shelved active compacts
  have place := behind.merged
  rw [if_neg (by omega)] at place
  rw [survives_installed_iff session.sound shelved installs.id installs.named once
    active compacts.nonempty
    behind.recovers, place]
  refine ⟨?_, valid, _, ?_, permuted⟩
  · obtain ⟨saved', longer, limit', after⟩ := behind.recorded
    refine recovers_valid after fun segmentId => ?_
    rw [behind.segments, if_neg (by omega)]
    split
    · exact .inl rfl
    · split
      · exact .inr valid
      · exact shelved.none_or_valid segmentId
  · have path : Path.root entry.filename = segmentPath entry.segmentId :=
      congrArg Path.root installs.named
    rw [segmentEvents, path, place, opened, ok_bind, read]

end Compacting

end Places

theorem quiet_untouched {disk : Disk Path} {catalog : Catalog} {ids : List UInt64}
    {run : Prog.Run Path Catalog Stop (List UInt64)}
    (quiet : Quiet disk catalog ids run) (count : Nat) :
    Untouched disk (applyAll disk (run.performed.take count)) ∧
      ¬ EndsCommitted (run.performed.take count) ∧
      ¬ MovedIn (run.performed.take count) := by
  obtain ⟨effects, performed, shape⟩ := quiet.performed
  have foreign := foreign_of_isTemporary (isTemporary_compactTmpPath catalog.manifest.nextSegmentId)
  -- Whatever is done is done to the temporary file.
  have nothing : Untouched disk (applyAll disk []) ∧ ¬ EndsCommitted [] ∧ ¬ MovedIn [] := by
    refine ⟨.refl disk, ?_, ?_⟩
    · rintro ⟨txId, last⟩
      cases last
    · rintro ⟨step, listed, -⟩
      cases listed
  have one : ∀ effect : Effect Path, (∃ found, effect.apply disk =
      Function.update disk (compactTmpPath catalog.manifest.nextSegmentId) found) →
      (∀ path bytes, effect ≠ .append path bytes) →
        (∀ source target, effect ≠ .rename source target) →
        Untouched disk (applyAll disk ((done [effect]).take count)) ∧
          ¬ EndsCommitted ((done [effect]).take count) ∧
          ¬ MovedIn ((done [effect]).take count) := by
    rintro effect ⟨found, applied⟩ noAppend noRename
    cases count with
    | zero => exact nothing
    | succ more =>
      rw [List.take_of_length_le (by simp [done])]
      refine ⟨?_, ?_, ?_⟩
      · change Untouched disk (effect.apply disk)
        rw [applied]
        exact (Untouched.refl disk).update foreign found
      · rintro ⟨txId, last⟩
        exact noAppend _ _ (Prod.mk.inj (Option.some.inj last)).1
      · rintro ⟨step, listed, source, segmentId, moves⟩
        rw [List.mem_singleton.mp listed] at moves
        exact noRename _ _ moves
  rw [performed]
  rcases shape with rfl | ⟨file, rfl⟩ | rfl
  · rw [done, List.map_nil, List.take_nil]
    exact nothing
  · exact one _ ⟨some file, rfl⟩ (fun _ _ same => by cases same) fun _ _ same => by cases same
  · exact one _ ⟨none, rfl⟩ (fun _ _ same => by cases same) fun _ _ same => by cases same

theorem plain_reached {start : World} (blank : start.Blank) {ops : List CatalogOp}
    (careful : ∀ op ∈ ops, op.Careful ∧ op.Plain)
    (few : ops.length + 2 < 2 ^ 64) {catalog : Catalog}
    (found : (start.run ops).session = some catalog) :
    ∃ saved history limit, limit + 1 < 2 ^ 64 ∧ Recorded (start.run ops).disk saved history limit ∧
      InSession (start.run ops).disk saved history limit catalog ∧
        ∀ attempt ∈ history, removes attempt.op = [] := by
  obtain ⟨saved, history, reached, origin⟩ :=
    (blank_reached blank).run ops (fun op listed => (careful op listed).1)
    (by omega)
  rw [List.nil_append, Nat.zero_add] at reached
  refine ⟨saved, history,
    _, by omega, reached.invariant.recorded, reached.invariant.session catalog found, ?_⟩
  intro attempt listed
  obtain ⟨op, among, made⟩ := origin attempt listed
  exact removes_of_plain (careful op among).2 made

/-- In a directory that was opened and committed to, the events of the active segments survive a
compaction that dies behind any of its effects, unless it dies between the commit record and the
rename, where they are lost. Once it has renamed, the offsets of the merged segment must fit. -/
theorem compaction_survives {start : World} (blank : start.Blank) {ops : List CatalogOp}
    (careful : ∀ op ∈ ops, op.Careful ∧ op.Plain)
    (few : ops.length + 2 < 2 ^ 64) {catalog : Catalog}
    (found : (start.run ops).session = some catalog) {contents : UInt64 → List CanonicalEvent}
    (shelved : Shelved (start.run ops).disk catalog.manifest contents) (host : Host)
    {ids : List UInt64} (once : ids.Nodup)
    (active : ∀ segmentId ∈ ids, segmentId ∈ catalog.activeSegments.map (·.segmentId))
    (fits : Fits ids) (count : Nat) :
    (¬ EndsCommitted
      (((compactSegments host ids).exec [] (start.run ops).disk catalog).performed.take count) →
      (MovedIn (((compactSegments host ids).exec []
        (start.run ops).disk catalog).performed.take count) →
        eventsLayoutEnd (host.order.sort (ids.flatMap contents)) < 2 ^ 32) →
      Survives (start.run ops).disk catalog.manifest (applyAll (start.run ops).disk
        (((compactSegments host ids).exec [] (start.run ops).disk catalog).performed.take count))) ∧
    (EndsCommitted
      (((compactSegments host ids).exec [] (start.run ops).disk catalog).performed.take count) →
      ¬ Survives (start.run ops).disk catalog.manifest (applyAll (start.run ops).disk
        (((compactSegments host ids).exec []
          (start.run ops).disk catalog).performed.take count))) := by
  obtain ⟨saved, history, limit, room, recorded, session, keeps⟩ :=
    plain_reached blank careful few found
  generalize (start.run ops).disk = disk at *
  rcases compactSegments_cases host disk ids session.opened with
    ⟨events, file, entry, compacts⟩ | quiet
  · have named : Named entry := (compact_installs compacts fits).named
    rw [compactSegments_exec session.opened compacts]
    dsimp only
    rw [endsCommitted_iff fits named, movedIn_iff]
    refine ⟨fun early small => ?_, fun dies => ?_⟩
    · by_cases late : 5 ≤ count
      · rw [merged_events session shelved active compacts] at small
        exact survives_moved recorded session keeps shelved room fits active compacts once
          (small late) late
      · exact survives_before_commit recorded session keeps shelved room fits compacts (by omega)
    · rw [dies]
      exact lost_committed recorded session keeps shelved room fits active compacts once
  · obtain ⟨untouched, notCommitted, -⟩ := quiet_untouched quiet count
    refine ⟨fun _ _ => ?_, fun dies => absurd dies notCommitted⟩
    exact survives_uncommitted session keeps shelved untouched.segments
      (.inl (recorded.untouched untouched le_rfl recorded.small))

-- The segment of a quote is compacted on its own.

theorem quoteCommitted_plain (file : Bytes) :
    ∀ op ∈ [CatalogOp.openCatalog 0 none, .stage quotePath file, .commit quotePath {} none],
      op.Careful ∧ op.Plain := by
  intro op listed
  rcases List.mem_append.mp (show op ∈ [CatalogOp.openCatalog 0 none, .stage quotePath file] ++
    [.commit quotePath {} none] from listed) with early | last
  · exact quoteStaged_careful file op early
  · rw [List.mem_singleton.mp last]
    exact ⟨quotePath_foreign, fun _ _ _ same => by cases same⟩

theorem quote_shelved : ∃ file, SegmentReader.Reads file [quoteEvent] ∧
    Shelved (quoteCommitted file).disk (commitManifest {} {}) fun _ => [quoteEvent] := by
  obtain ⟨file, written, -⟩ := quote_stocked
  refine ⟨file, written.readable, ⟨fun segmentId other there => ?_, fun seg listed => ?_⟩⟩
  · rw [quoteCommitted_segments] at there
    split at there
    · rwa [← Option.some.inj there]
    · cases there
  · obtain rfl : seg = commitEntry {} {} := List.mem_singleton.mp listed
    rw [quoteCommitted_segments, if_pos (show (commitEntry {} {}).segmentId = 1 from rfl)]
    rfl

theorem quote_fits : Fits [1] := by
  unfold Fits
  decide

theorem quote_listed : ∀ segmentId ∈ [(1 : UInt64)],
    segmentId ∈ (commitManifest {} {}).activeSegments.map (·.segmentId) := by
  intro segmentId listed
  rw [List.mem_singleton.mp listed]
  exact List.mem_singleton.mpr rfl

theorem compaction_survives_quote : ∃ file,
    Survives (quoteCommitted file).disk (commitManifest {} {})
    (applyAll (quoteCommitted file).disk
      (((compactSegments plainHost [1]).exec [] (quoteCommitted file).disk
      ⟨commitManifest {} {}, ⟨some journalPath⟩⟩).performed.take 8)) := by
  obtain ⟨file, reads, shelved⟩ := quote_shelved
  have there := quoteCommitted_segments file 1
  rw [if_pos rfl] at there
  obtain ⟨compacted, made, compacts⟩ :=
    @quote_compacts (quoteCommitted file).disk (commitManifest {} {}) 1
    (commitEntry {} {}) file rfl there reads
  have session := quoteCommitted_session file
  rw [quoteCommitted_run] at session
  have survives := @compaction_survives blankWorld blankWorld_blank _ (quoteCommitted_plain file)
    (by simp) _ session
    (fun _ => [quoteEvent]) (quoteCommitted_run file ▸ shelved) plainHost [1]
      (List.nodup_singleton 1) quote_listed
    quote_fits 8
  rw [← quoteCommitted_run] at survives
  refine ⟨file, survives.1 ?_ fun _ => ?_⟩
  · rw [compactSegments_exec rfl compacts]
    dsimp only
    obtain ⟨reader, -, same⟩ := compacts.opened
    rw [endsCommitted_iff quote_fits (by rw [same]; rfl)]
    decide
  · have sorted : plainHost.order.sort [quoteEvent] = [quoteEvent] :=
      List.perm_singleton.mp (plainHost.order.perm [quoteEvent])
    rw [show [(1 : UInt64)].flatMap (fun _ => [quoteEvent]) = [quoteEvent] from rfl, sorted]
    decide

/-- Behind the commit record, the quote is lost. -/
theorem compaction_loses_quote : ∃ file, Shelved (quoteCommitted file).disk (commitManifest {} {})
    (fun _ => [quoteEvent]) ∧
    ¬ Survives (quoteCommitted file).disk (commitManifest {} {})
      (applyAll (quoteCommitted file).disk
        (((compactSegments plainHost [1]).exec [] (quoteCommitted file).disk
        ⟨commitManifest {} {}, ⟨some journalPath⟩⟩).performed.take 4)) := by
  obtain ⟨file, reads, shelved⟩ := quote_shelved
  refine ⟨file, shelved, ?_⟩
  have there := quoteCommitted_segments file 1
  rw [if_pos rfl] at there
  obtain ⟨compacted, made, compacts⟩ :=
    @quote_compacts (quoteCommitted file).disk (commitManifest {} {}) 1
    (commitEntry {} {}) file rfl there reads
  have found := quoteCommitted_session file
  rw [quoteCommitted_run] at found
  obtain ⟨saved, history, limit, room, recorded, session, keeps⟩ := plain_reached blankWorld_blank
    (quoteCommitted_plain file) (by simp) found
  rw [← quoteCommitted_run] at recorded session
  rw [compactSegments_exec rfl compacts]
  dsimp only
  exact lost_committed recorded session keeps shelved room quote_fits quote_listed compacts
    (List.nodup_singleton 1)

end VectorTick
