import VectorTick.Storage.CatalogEffects

/-! Runs of a catalog: sessions, commits, compactions and crashes, over any number of steps. -/

set_option autoImplicit false

namespace VectorTick

open Foundation Journal Catalog Manifest

/-- The process dies after `count` effects of a call; `reached` says which files a sweep that was
under way had removed. -/
structure Cut where
  count : Nat
  reached : Path → Bool

/-- The disk, the open catalog if there is one, and what each commit or compaction appended to the
journal, calls that appended nothing left out. -/
structure World where
  disk : Disk Path
  session : Option Catalog
  attempts : List Bytes

inductive CatalogOp where
  -- Another program puts a file somewhere.
  | stage (path : Path) (file : Bytes)
  -- The process ends between calls.
  | leave
  | openCatalog (now : UInt64) (cut : Option Cut)
  | commit (tempPath : Path) (entry : SegmentMeta) (cut : Option Cut)
  | compact (host : Host) (ids : List UInt64) (cut : Option Cut)

def appendedBytes (performed : List (Performed Path)) : Bytes :=
  performed.flatMap fun step =>
    match step.1 with
    | .append path bytes => if path = journalPath ∧ step.2.took then bytes else []
    | _ => []

/-- A status leaves the catalog in use; a fault ends the process. -/
def survivor {α : Type} (run : Prog.Run Path Catalog Stop α) : Option Catalog :=
  match run.outcome with
  | .ok _ | .error (.status _) => some run.state
  | .error _ => none

theorem survivor_state {α : Type} {run : Prog.Run Path Catalog Stop α} {left : Catalog}
    (survives : survivor run = some left) : left = run.state := by
  unfold survivor at survives
  split at survives
  · exact (Option.some.inj survives).symm
  · exact (Option.some.inj survives).symm
  · cases survives

namespace World

/-- A new directory. -/
def Blank (world : World) : Prop :=
  world.disk manifestPath = none ∧ world.disk journalPath = none ∧
    (∀ segmentId, world.disk (segmentPath segmentId) = none) ∧
      world.session = none ∧ world.attempts = []

def note (world : World) (bytes : Bytes) : List Bytes :=
  if bytes = [] then world.attempts else world.attempts ++ [bytes]

def afterCall {α : Type} (world : World) (run : Prog.Run Path Catalog Stop α)
    (cut : Option Cut) : World :=
  match cut with
  | some cut =>
    if cut.count < run.performed.length then
      { disk := cutDisk world.disk run.performed cut.count cut.reached, session := none
        attempts := world.note (appendedBytes (run.performed.take cut.count)) }
    else { disk := run.disk, session := survivor run, attempts := world.note (appendedBytes
      run.performed) }
  | none => { disk := run.disk, session := survivor run, attempts := world.note (appendedBytes run.performed) }

/-- The world after opening a catalog; only one that opened is used. -/
def afterOpen (world : World) (run : Prog.Run Path Catalog Stop Unit) (cut : Option Cut) : World :=
  let finished : World :=
    { world with disk := run.disk, session := run.outcome.toOption.map fun _ => run.state }
  match cut with
  | some cut =>
    if cut.count < run.performed.length then
      { world with disk := cutDisk world.disk run.performed cut.count cut.reached, session := none }
    else finished
  | none => finished

def step (world : World) : CatalogOp → World
  | .stage path file => { world with disk := Function.update world.disk path (some file) }
  | .leave => { world with session := none }
  | .openCatalog now cut => world.afterOpen ((Catalog.openCatalog now).exec [] world.disk {}) cut
  | .commit tempPath entry cut =>
    match world.session with
    | none => world
    | some catalog =>
      world.afterCall ((commitSegment tempPath entry).exec [] world.disk catalog) cut
  | .compact host ids cut =>
    match world.session with
    | none => world
    | some catalog => world.afterCall ((compactSegments host ids).exec [] world.disk catalog) cut

def run (world : World) (ops : List CatalogOp) : World := ops.foldl step world

end World

/-- The open catalog in terms of the recorded history. Its ids lie above everything issued, and
whatever a recovery would find active is active in memory. -/
structure InSession (disk : Disk Path) (saved : Manifest) (history : List Attempt)
    (limit : Nat) (catalog : Catalog) :
    Prop where
  opened : catalog.journal = ⟨some journalPath⟩
  journal : ∃ creationTs, disk journalPath = some (fileOf creationTs (recordsOf history))
  sound : catalog.manifest.Sound
  segments : ∀ segmentId, (disk (segmentPath segmentId)).isSome →
    segmentId.toNat < catalog.manifest.nextSegmentId.toNat
  issued : ∀ attempt ∈ history, attempt.txId.toNat ≤ catalog.manifest.nextTxId.toNat ∧
    (attempt.stage = .committed → attempt.txId.toNat < catalog.manifest.nextTxId.toNat)
  reach : catalog.manifest.nextTxId.toNat ≤ saved.nextTxId.toNat ∨
    ∃ done ∈ history, done.stage = .committed ∧
      catalog.manifest.nextTxId.toNat ≤ done.txId.toNat + 1
  grows : saved.nextTxId.toNat ≤ catalog.manifest.nextTxId.toNat
  nextTx : catalog.manifest.nextTxId.toNat ≤ limit
  nextSegment : catalog.manifest.nextSegmentId.toNat ≤ limit
  live : (∀ attempt ∈ history, removes attempt.op = []) → ∀ entry ∈ catalog.activeSegments,
    ∃ attempt, Owner history attempt ∧ attempt.entry = entry
  covered : ∀ attempt, Owner history attempt →
    fileValid (disk (segmentPath attempt.entry.segmentId)) = true →
    ¬ Dropped history attempt.txId attempt.entry.segmentId → attempt.entry ∈ catalog.activeSegments

def Attempt.bytes (attempt : Attempt) : Bytes := attempt.records.flatMap JournalRecord.toBytes

structure Invariant (world : World) (saved : Manifest) (history : List Attempt)
    (limit : Nat) : Prop where
  recorded : Recorded world.disk saved history limit
  attempts : world.attempts = history.map Attempt.bytes
  session : ∀ catalog, world.session = some catalog →
    InSession world.disk saved history limit catalog

/-- The files that the catalog relies on are the same on both disks. -/
structure Untouched (before after : Disk Path) : Prop where
  manifest : after manifestPath = before manifestPath
  journal : after journalPath = before journalPath
  segments : ∀ segmentId, after (segmentPath segmentId) = before (segmentPath segmentId)

theorem Untouched.refl (disk : Disk Path) : Untouched disk disk := ⟨rfl, rfl, fun _ => rfl⟩

theorem Untouched.update {before after : Disk Path} (same : Untouched before after) {path : Path}
    (foreign : Foreign path) (found : Option Bytes) :
    Untouched before (Function.update after path found) where
  manifest := by rw [Function.update_of_ne foreign.manifest.symm, same.manifest]
  journal := by rw [Function.update_of_ne foreign.journal.symm, same.journal]
  segments :=
    fun segmentId => by rw [Function.update_of_ne (foreign.segment segmentId).symm, same.segments]

namespace Recorded

variable {disk after : Disk Path} {saved : Manifest} {history : List Attempt} {limit larger : Nat}

theorem frame (recorded : Recorded disk saved history limit)
    (manifest : after manifestPath = disk manifestPath)
    (journal : after journalPath = disk journalPath)
    (segments : ∀ segmentId, (after (segmentPath segmentId)).isSome →
      (disk (segmentPath segmentId)).isSome)
    (more : limit ≤ larger) (small : larger < 2 ^ 64) : Recorded after saved history larger where
  sound := recorded.sound
  manifest := by
    rw [SavedManifest, manifest]
    exact recorded.manifest
  journal := by
    rw [SavedJournal, journal]
    exact recorded.journal
  writable := recorded.writable
  ordered := recorded.ordered
  owners := fun segmentId present => recorded.owners segmentId (segments segmentId present)
  pending := recorded.pending
  issued := fun attempt listed =>
    ⟨(recorded.issued attempt listed).1.trans_le more,
      (recorded.issued attempt listed).2.trans_le more⟩
  savedTx := recorded.savedTx.trans more
  savedSegment := recorded.savedSegment.trans more
  small := small

theorem save (recorded : Recorded disk saved history limit) {manifest : Manifest}
    (sound : manifest.Sound)
    (written : after manifestPath = some manifest.serialize)
    (journal : after journalPath = disk journalPath)
    (segments : ∀ segmentId, (after (segmentPath segmentId)).isSome →
      (disk (segmentPath segmentId)).isSome)
    (grows : saved.nextTxId.toNat ≤ manifest.nextTxId.toNat)
    (nextTx : manifest.nextTxId.toNat ≤ limit)
    (nextSegment : manifest.nextSegmentId.toNat ≤ limit) :
    Recorded after manifest history limit where
  sound := sound
  manifest := .inl written
  journal := by
    rw [SavedJournal, journal]
    exact recorded.journal
  writable := recorded.writable
  ordered := recorded.ordered
  owners := fun segmentId present => recorded.owners segmentId (segments segmentId present)
  pending :=
    fun attempt listed => (recorded.pending attempt listed).imp_left fun below => below.trans grows
  issued := recorded.issued
  savedTx := nextTx
  savedSegment := nextSegment
  small := recorded.small

theorem owner_append {attempt added : Attempt} (owner : Owner history attempt)
    (apart : added.entry.segmentId ≠ attempt.entry.segmentId) :
    Owner (history ++ [added]) attempt := by
  obtain ⟨before, behind, rfl, committed, last⟩ := owner
  refine ⟨before, behind ++ [added], by simp, committed, ?_⟩
  intro later listed
  rcases List.mem_append.mp listed with old | new
  · exact last later old
  · rw [List.mem_singleton.mp new]
    exact apart

theorem append (recorded : Recorded disk saved history limit) {added : Attempt}
    (fresh : ∀ attempt ∈ history, attempt.txId.toNat ≤ added.txId.toNat ∧
      (attempt.stage = .committed → attempt.txId.toNat < added.txId.toNat))
    (unused : ∀ segmentId, (disk (segmentPath segmentId)).isSome →
      segmentId ≠ added.entry.segmentId)
    (reach : added.txId.toNat ≤ saved.nextTxId.toNat ∨
      ∃ done ∈ history, done.stage = .committed ∧ added.txId.toNat ≤ done.txId.toNat + 1)
    (writable : ∀ record ∈ added.records, Writable record)
    (manifest : after manifestPath = disk manifestPath)
    (journal : ∃ creationTs, after journalPath =
      some (fileOf creationTs (recordsOf (history ++ [added]))))
    (segments : ∀ segmentId, (after (segmentPath segmentId)).isSome →
      (disk (segmentPath segmentId)).isSome ∨
      (segmentId = added.entry.segmentId ∧ added.stage = .committed))
    (nextTx : added.txId.toNat < larger) (nextSegment : added.entry.segmentId.toNat < larger)
    (more : limit ≤ larger)
    (small : larger < 2 ^ 64) : Recorded after saved (history ++ [added]) larger where
  sound := recorded.sound
  manifest := by
    rw [SavedManifest, manifest]
    exact recorded.manifest
  journal := .inl journal
  writable := by
    intro record listed
    rw [recordsOf, List.flatMap_append, List.flatMap_singleton, List.mem_append] at listed
    rcases listed with old | new
    · exact recorded.writable record old
    · exact writable record new
  ordered := by
    refine List.pairwise_append.mpr ⟨recorded.ordered, List.pairwise_singleton _ _, ?_⟩
    intro attempt listed other single
    rw [List.mem_singleton.mp single]
    exact fresh attempt listed
  owners := by
    intro segmentId present
    rcases segments segmentId present with old | ⟨rfl, committed⟩
    · obtain ⟨attempt, owner, rfl⟩ := recorded.owners segmentId old
      exact ⟨attempt, owner_append owner (unused _ old).symm, rfl⟩
    · exact ⟨added, ⟨history, [], by simp, committed, by simp⟩, rfl⟩
  pending := by
    intro attempt listed
    rcases List.mem_append.mp listed with old | new
    · rcases recorded.pending attempt old with below | ⟨done, found, committed, below⟩
      · exact .inl below
      · exact .inr ⟨done, List.mem_append_left _ found, committed, below⟩
    · rw [List.mem_singleton.mp new]
      rcases reach with below | ⟨done, found, committed, below⟩
      · exact .inl below
      · exact .inr ⟨done, List.mem_append_left _ found, committed, below⟩
  issued := by
    intro attempt listed
    rcases List.mem_append.mp listed with old | new
    · exact ⟨(recorded.issued attempt old).1.trans_le more,
        (recorded.issued attempt old).2.trans_le more⟩
    · rw [List.mem_singleton.mp new]
      exact ⟨nextTx, nextSegment⟩
  savedTx := recorded.savedTx.trans more
  savedSegment := recorded.savedSegment.trans more
  small := small

end Recorded

section Longer

variable {history : List Attempt} {added : Attempt}

theorem owner_snoc {attempt : Attempt} (owner : Owner (history ++ [added]) attempt) :
    (attempt = added ∧ added.stage = .committed) ∨
      (Owner history attempt ∧ added.entry.segmentId ≠ attempt.entry.segmentId) := by
  obtain ⟨before, behind, split, committed, last⟩ := owner
  rcases List.eq_nil_or_concat behind with rfl | ⟨middle, final, rfl⟩
  · obtain ⟨_, same⟩ := List.append_inj' split rfl
    cases same
    exact .inl ⟨rfl, committed⟩
  · rw [List.concat_eq_append, ← List.cons_append, ← List.append_assoc] at split
    obtain ⟨front, same⟩ := List.append_inj' split rfl
    cases same
    refine .inr ⟨⟨before, middle, front, committed, ?_⟩, last added (by simp)⟩
    intro later listed
    exact last later (by simp [listed])

theorem owner_last (committed : added.stage = .committed) : Owner (history ++ [added]) added :=
  ⟨history, [], rfl, committed, by simp⟩

theorem Dropped.append {txId segmentId : UInt64} (dropped : Dropped history txId segmentId) :
    Dropped (history ++ [added]) txId segmentId := by
  obtain ⟨remover, found, reach, removal, witness, among, same, committed⟩ := dropped
  exact ⟨remover, List.mem_append_left _ found, reach, removal, witness,
    List.mem_append_left _ among, same, committed⟩

theorem dropped_last {txId segmentId : UInt64} (reach : txId.toNat ≤ added.txId.toNat)
    (committed : added.stage = .committed) (removal : segmentId ∈ removes added.op) :
    Dropped (history ++ [added]) txId segmentId := by
  refine ⟨added, by simp, reach, ?_, added, by simp, rfl, committed⟩
  rw [Attempt.removed, committed]
  exact removal

end Longer

/-- A transaction about to be made on an open catalog: what it adds and removes, the file to be
moved into place, and the disk on which its first record is written. -/
structure Installs (disk start : Disk Path) (catalog : Catalog)
    (op : JournalOp) (entry : SegmentMeta)
    (ids : List UInt64) (source : Path) : Prop where
  adds : Journal.adds op = [entry]
  removes : Journal.removes op = ids
  named : Named entry
  active : entry.active = true
  id : entry.segmentId = catalog.manifest.nextSegmentId
  foreign : Foreign source
  short : op.payload.length < 2 ^ 32 - 16
  untouched : Untouched disk start

/-- How far a transaction has come after some of its effects. -/
def stageAt (count : Nat) : Stage :=
  if count ≤ 1 then .begun else if count = 2 then .logged else .committed

section Install

variable {disk start : Disk Path} {saved : Manifest} {history : List Attempt}
  {limit : Nat} {catalog : Catalog}
  {op : JournalOp} {entry : SegmentMeta} {ids : List UInt64} {source : Path} {contents : Bytes}

def Installs.attempt (installs : Installs disk start catalog op entry ids source)
    (stage : Stage) : Attempt where
  txId := catalog.manifest.nextTxId
  op
  entry
  stage
  adds_op := installs.adds
  named := installs.named
  active := installs.active

theorem ops_stageAt (installs : Installs disk start catalog op entry ids source) {count : Nat}
    (begun : 1 ≤ count) :
    (installs.attempt (stageAt count)).ops = [.txBegin, op, .txCommit].take count := by
  match count with
  | 1 => rfl
  | 2 => rfl
  | more + 3 => simp [Installs.attempt, Attempt.ops, stageAt]

theorem takeIds_sound {manifest : Manifest} (sound : manifest.Sound)
    (room : manifest.nextSegmentId.toNat + 1 < 2 ^ 64) :
    (takeIds manifest).Sound :=
  sound.of_ids rfl sound.named (by rw [takeIds, toNat_succ room]; omega)

theorem installManifest_sound {manifest : Manifest} (sound : manifest.Sound)
    (room : manifest.nextSegmentId.toNat + 1 < 2 ^ 64) (named : Named entry)
    (id : entry.segmentId = manifest.nextSegmentId) (ids : List UInt64) :
    (installManifest manifest ids entry).Sound := by
  have taken := (takeIds_sound sound room).removeSegments ids
  have next := (removeSegments_ids ids (takeIds manifest)).1
  refine taken.addSegment named le_rfl ?_
  rw [next, takeIds, toNat_succ room, id]
  omega

theorem installManifest_next (manifest : Manifest) (ids : List UInt64) (entry : SegmentMeta) :
    (installManifest manifest ids entry).nextSegmentId = manifest.nextSegmentId + 1 ∧
      (installManifest manifest ids entry).nextTxId = manifest.nextTxId + 1 :=
  removeSegments_ids ids (takeIds manifest)

theorem active_installManifest {manifest : Manifest} (sound : manifest.Sound)
    (room : manifest.nextSegmentId.toNat + 1 < 2 ^ 64)
    (id : entry.segmentId = manifest.nextSegmentId)
    (active : entry.active = true) (ids : List UInt64) :
    (installManifest manifest ids entry).activeSegments =
      manifest.activeSegments.filter (·.segmentId ∉ ids) ++ [entry] := by
  have taken := takeIds_sound sound room
  have old := taken.active_removeSegments ids
  rw [installManifest, Manifest.addSegment, Manifest.activeSegments]
  dsimp only
  rw [putSegment_fresh, List.filter_append, ← Manifest.activeSegments, old,
    List.filter_cons_of_pos active, List.filter_nil]
  · rfl
  · intro seg listed same
    have there := entryOf_of_mem (taken.removeSegments ids).distinct listed
    rw [entryOf_removeSegments] at there
    obtain ⟨first, found, _⟩ := Option.map_eq_some_iff.mp there
    have below := sound.below first (entryOf_mem found)
    rw [entryOf_id found, same, id] at below
    omega

theorem mem_active_installManifest {manifest : Manifest} (sound : manifest.Sound)
    (room : manifest.nextSegmentId.toNat + 1 < 2 ^ 64)
    (id : entry.segmentId = manifest.nextSegmentId)
    (active : entry.active = true) {ids : List UInt64} {other : SegmentMeta} :
    other ∈ (installManifest manifest ids entry).activeSegments ↔
      (other ∈ manifest.activeSegments ∧ other.segmentId ∉ ids) ∨ other = entry := by
  rw [active_installManifest sound room id active, List.mem_append, List.mem_filter,
    decide_eq_true_eq, List.mem_singleton]

theorem install_recorded (recorded : Recorded disk saved history limit)
    (session : InSession disk saved history limit catalog)
    (installs : Installs disk start catalog op entry ids source)
    (room : limit + 1 < 2 ^ 64) {count : Nat}
    (begun : 1 ≤ count) (found : 4 ≤ count → start source = some contents) :
    Recorded (applyAll start
      ((done (installEffects catalog.manifest.nextTxId op source catalog.manifest.nextSegmentId
        (installManifest catalog.manifest ids entry) ids)).take count))
      (if count < 6 then saved else installManifest catalog.manifest ids entry)
      (history ++ [installs.attempt (stageAt count)]) (limit + 1) := by
  obtain ⟨creationTs, journal⟩ := session.journal
  have nextTx := session.nextTx
  have nextSegment := session.nextSegment
  obtain ⟨logged, saves, segments⟩ := @install_observed start _ contents catalog.manifest.nextTxId
    catalog.manifest.nextSegmentId op source (installManifest catalog.manifest ids entry) ids count
      (installs.untouched.journal.trans journal) installs.foreign
    found
  generalize applyAll start
    ((done (installEffects catalog.manifest.nextTxId op source catalog.manifest.nextSegmentId
    (installManifest catalog.manifest ids entry) ids)).take count) =
      after at logged saves segments ⊢
  have present : ∀ segmentId, (after (segmentPath segmentId)).isSome →
      (disk (segmentPath segmentId)).isSome ∨
      (segmentId = entry.segmentId ∧ (installs.attempt (stageAt count)).stage = .committed) := by
    intro segmentId here
    rw [segments, installs.untouched.segments] at here
    split at here
    · exact .inl here
    · next late =>
      split at here
      · cases here
      · split at here
        · next same =>
          refine .inr ⟨same.trans installs.id.symm, ?_⟩
          simp only [Installs.attempt, stageAt]
          rw [if_neg (by omega), if_neg (by omega)]
        · exact .inl here
  have records : (installs.attempt (stageAt count)).records =
      ([JournalOp.txBegin, op, .txCommit].take count).map
        (JournalRecord.mk catalog.manifest.nextTxId) := by
    rw [Attempt.records, ops_stageAt installs begun]
    rfl
  -- First with the manifest as it was, then with the new one.
  have middle : Recorded (Function.update after manifestPath (disk manifestPath)) saved
      (history ++ [installs.attempt (stageAt count)]) (limit + 1) := by
    refine recorded.append session.issued ?_ session.reach ?_
      (Function.update_self ..) ⟨creationTs, ?_⟩ ?_ (by
      simp only [Installs.attempt]; omega) (by simp only [Installs.attempt, installs.id]; omega)
        (by omega) room
    · rintro segmentId here rfl
      have below := session.segments _ here
      rw [show (installs.attempt
        (stageAt count)).entry.segmentId = catalog.manifest.nextSegmentId from installs.id] at below
      omega
    · intro record listed
      rw [records] at listed
      obtain ⟨other, among, rfl⟩ := List.mem_map.mp listed
      have cases := List.mem_of_mem_take among
      simp only [List.mem_cons, List.not_mem_nil, or_false] at cases
      rcases cases with rfl | rfl | rfl
      · exact writable_empty rfl
      · exact installs.short
      · exact writable_empty rfl
    · have whole : recordsOf (history ++ [installs.attempt (stageAt count)]) = recordsOf history ++
          ([JournalOp.txBegin, op, .txCommit].take count).map
            (JournalRecord.mk catalog.manifest.nextTxId) := by
        rw [recordsOf, List.flatMap_append, List.flatMap_singleton, records]
        rfl
      rw [Function.update_of_ne manifest_ne_journal.symm, logged, whole, fileOf, fileOf,
        List.flatMap_append, List.append_assoc]
    · intro segmentId here
      rw [Function.update_of_ne (segmentPath_ne_manifest segmentId)] at here
      exact present segmentId here
  split
  · next early =>
    rw [if_pos early, installs.untouched.manifest] at saves
    rw [← saves, Function.update_eq_self] at middle
    exact middle
  · next late =>
    rw [if_neg late] at saves
    have sound := installManifest_sound session.sound (by omega) installs.named installs.id ids
    have next := installManifest_next catalog.manifest ids entry
    have grows := session.grows
    refine middle.save sound saves
      (Function.update_of_ne manifest_ne_journal.symm _ _).symm ?_ ?_ ?_ ?_
    · intro segmentId here
      rwa [Function.update_of_ne (segmentPath_ne_manifest segmentId)]
    · rw [next.2, toNat_succ (by omega)]
      omega
    · rw [next.2, toNat_succ (by omega)]
      omega
    · rw [next.1, toNat_succ (by omega)]
      omega

theorem install_session (session : InSession disk saved history limit catalog)
    (installs : Installs disk start catalog op entry ids source) (room : limit + 1 < 2 ^ 64)
    (found : start source = some contents) :
    InSession (applyAll start
      (done (installEffects catalog.manifest.nextTxId op source catalog.manifest.nextSegmentId
        (installManifest catalog.manifest ids entry) ids)))
      (installManifest catalog.manifest ids entry)
      (history ++ [installs.attempt .committed]) (limit + 1)
      { catalog with manifest := installManifest catalog.manifest ids entry } := by
  obtain ⟨creationTs, journal⟩ := session.journal
  have nextTx := session.nextTx
  have nextSegment := session.nextSegment
  have next := installManifest_next catalog.manifest ids entry
  have succTx : (catalog.manifest.nextTxId + 1).toNat = catalog.manifest.nextTxId.toNat + 1 :=
    toNat_succ (by omega)
  have succSegment : (catalog.manifest.nextSegmentId + 1).toNat =
      catalog.manifest.nextSegmentId.toNat + 1 :=
    toNat_succ (by omega)
  have sound := installManifest_sound session.sound (by omega) installs.named installs.id ids
  obtain ⟨logged, -, segments⟩ := @install_observed start _ contents catalog.manifest.nextTxId
    catalog.manifest.nextSegmentId op source (installManifest catalog.manifest ids entry) ids
      (ids.length + 6)
    (installs.untouched.journal.trans journal) installs.foreign fun _ => found
  have complete : (done
      (installEffects catalog.manifest.nextTxId op source catalog.manifest.nextSegmentId
      (installManifest catalog.manifest ids entry) ids)).length ≤ ids.length + 6 := by
    simp [done, installEffects, transactionEffects, logEffects, saveEffects, removeEffects]
  rw [List.take_of_length_le complete] at logged segments
  generalize applyAll start
    (done (installEffects catalog.manifest.nextTxId op source catalog.manifest.nextSegmentId
    (installManifest catalog.manifest ids entry) ids)) = after at logged segments ⊢
  simp only [show ¬ ids.length + 6 <
    4 by omega, if_false, Nat.add_sub_cancel, List.take_length, installs.untouched.segments]
    at segments
  have active : ∀ other, other ∈ (installManifest catalog.manifest ids entry).activeSegments ↔
      (other ∈ catalog.activeSegments ∧ other.segmentId ∉ ids) ∨ other = entry := fun other =>
    mem_active_installManifest session.sound (by omega) installs.id installs.active
  refine ⟨session.opened, ⟨creationTs, ?_⟩, sound, ?_, ?_, .inl le_rfl, le_rfl, ?_, ?_, ?_, ?_⟩
  · rw [logged, fileOf, fileOf, recordsOf, recordsOf, List.flatMap_append, List.flatMap_append,
      List.flatMap_singleton, List.append_assoc, List.take_of_length_le (by simp)]
    rfl
  · intro segmentId present
    rw [next.1, succSegment]
    rw [segments] at present
    split at present
    · cases present
    · split at present
      · next same =>
        rw [same]
        omega
      · have below := session.segments _ present
        omega
  · intro attempt listed
    rw [next.2, succTx]
    rcases List.mem_append.mp listed with old | new
    · have below := (session.issued attempt old).1
      exact ⟨by omega, fun _ => by omega⟩
    · rw [List.mem_singleton.mp new]
      exact ⟨Nat.le_succ _, fun _ => Nat.lt_succ_self _⟩
  · rw [next.2, succTx]
    omega
  · rw [next.1, succSegment]
    omega
  · intro quiet other listed
    rcases (active other).mp listed with ⟨old, _⟩ | rfl
    · obtain ⟨attempt, owner, rfl⟩ :=
        session.live (fun attempt listed => quiet attempt (by simp [listed])) other old
      refine ⟨attempt, Recorded.owner_append owner fun same => ?_, rfl⟩
      have below := session.sound.below _ (mem_activeSegments.mp old).1
      rw [← same, show (installs.attempt .committed).entry.segmentId =
        catalog.manifest.nextSegmentId from installs.id]
        at below
      omega
    · exact ⟨installs.attempt .committed, owner_last rfl, rfl⟩
  · intro attempt owner valid undropped
    refine (active _).mpr ?_
    rcases owner_snoc owner with ⟨rfl, -⟩ | ⟨old, apart⟩
    · exact .inr rfl
    · have kept : attempt.entry.segmentId ∉ ids := fun inside => undropped (dropped_last
        (session.issued attempt (Recorded.mem_of_owner old).1).1 rfl (installs.removes ▸ inside))
      rw [segments, if_neg kept, if_neg fun same => apart (installs.id.trans same.symm)] at valid
      exact .inl ⟨session.covered attempt old valid fun dropped => undropped dropped.append, kept⟩

end Install

end VectorTick
