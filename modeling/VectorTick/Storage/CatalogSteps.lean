import VectorTick.Storage.CatalogRuns

/-! One step of a run keeps the invariant, and so does a whole run. -/

set_option autoImplicit false

namespace VectorTick

open Foundation Journal Catalog Manifest

theorem appendedBytes_append (first second : List (Performed Path)) :
    appendedBytes (first ++ second) = appendedBytes first ++ appendedBytes second :=
  List.flatMap_append

theorem appendedBytes_log (txId : UInt64) (ops : List JournalOp) :
    appendedBytes (done (logEffects txId ops)) =
      (ops.map (JournalRecord.mk txId)).flatMap JournalRecord.toBytes := by
  induction ops with
  | nil => rfl
  | cons op rest ih =>
    have front : done (logEffects txId (op :: rest)) =
        (.append journalPath (JournalRecord.mk txId op).toBytes, .done) :: done
          (logEffects txId rest) := rfl
    have alone : appendedBytes [(.append journalPath (JournalRecord.mk txId op).toBytes, .done)] =
        (JournalRecord.mk txId op).toBytes := by
      unfold appendedBytes
      simp [Report.took]
    rw [front, ← List.singleton_append, appendedBytes_append, alone, ih,
      List.map_cons, List.flatMap_cons]

theorem appendedBytes_silent {performed : List (Performed Path)}
    (silent : ∀ step ∈ performed, ∀ path bytes, step.1 ≠ .append path bytes) :
    appendedBytes performed = [] := by
  refine List.flatMap_eq_nil_iff.mpr fun step listed => ?_
  split
  · next path bytes found => exact absurd found (silent step listed path bytes)
  · rfl

/-- The part of an installation behind its transaction. -/
def installRest (source : Path) (segmentId : UInt64) (manifest : Manifest) (ids : List UInt64) :
    List (Effect Path) :=
  .rename source (segmentPath segmentId) :: (saveEffects manifest ++ removeEffects ids)

theorem installRest_cases {source : Path} {segmentId : UInt64}
    {manifest : Manifest} {ids : List UInt64}
    {effect : Effect Path} (listed : effect ∈ installRest source segmentId manifest ids) :
    (∃ first second, effect = .rename first second) ∨ (∃ path bytes, effect = .write path bytes) ∨
      ∃ path, effect = .remove path := by
  simp only [installRest, saveEffects, removeEffects, List.mem_cons, List.mem_append, List.mem_map,
    List.not_mem_nil, or_false] at listed
  rcases listed with rfl | (rfl | rfl) | ⟨_, _, rfl⟩
  · exact .inl ⟨_, _, rfl⟩
  · exact .inr (.inl ⟨_, _, rfl⟩)
  · exact .inl ⟨_, _, rfl⟩
  · exact .inr (.inr ⟨_, rfl⟩)

theorem install_appended (txId : UInt64) (op : JournalOp) (source : Path)
    (segmentId : UInt64) (manifest : Manifest)
    (ids : List UInt64) (count : Nat) :
    appendedBytes ((done (installEffects txId op source segmentId manifest ids)).take count) =
      (([.txBegin, op, .txCommit].take count).map (JournalRecord.mk txId)).flatMap
        JournalRecord.toBytes := by
  have split : installEffects txId op source segmentId manifest ids =
      transactionEffects txId op ++ installRest source segmentId manifest ids := rfl
  have front : (done (transactionEffects txId op)).take count =
      done (logEffects txId ([.txBegin, op, .txCommit].take count)) := by
    rw [take_done, transactionEffects, logEffects, logEffects, List.map_take]
  rw [split, done_append, List.take_append, appendedBytes_append, front, appendedBytes_log,
    appendedBytes_silent, List.append_nil]
  intro step listed path bytes same
  obtain ⟨effect, found, rfl⟩ := List.mem_map.mp (List.mem_of_mem_take listed)
  rcases installRest_cases found with ⟨_, _, rfl⟩ | ⟨_, _, rfl⟩ | ⟨_, rfl⟩ <;> cases same

theorem install_steady (txId : UInt64) (op : JournalOp) (source : Path)
    (segmentId : UInt64) (manifest : Manifest)
    (ids : List UInt64) :
    ∀ effect ∈ installEffects txId op source segmentId manifest ids, ∀ chosen,
      effect ≠ .sweep chosen := by
  rintro effect listed chosen rfl
  rcases List.mem_append.mp listed with logged | rest
  · obtain ⟨_, _, same⟩ := List.mem_map.mp logged
    cases same
  · rcases installRest_cases rest with ⟨_, _, same⟩ | ⟨_, _, same⟩ | ⟨_, same⟩ <;> cases same

section Frame

variable {disk after : Disk Path} {saved : Manifest} {history : List Attempt}
  {limit larger : Nat} {catalog : Catalog}

theorem InSession.frame (session : InSession disk saved history limit catalog)
    (same : Untouched disk after)
    (more : limit ≤ larger) : InSession after saved history larger catalog where
  opened := session.opened
  journal := same.journal ▸ session.journal
  sound := session.sound
  segments :=
    fun segmentId present => session.segments segmentId (same.segments segmentId ▸ present)
  issued := session.issued
  reach := session.reach
  grows := session.grows
  nextTx := session.nextTx.trans more
  nextSegment := session.nextSegment.trans more
  live := session.live
  covered := fun attempt owner valid => session.covered attempt owner (same.segments _ ▸ valid)

theorem InSession.takeSegment (session : InSession disk saved history limit catalog)
    (same : Untouched disk after)
    (room : limit + 1 < 2 ^ 64) :
    InSession after saved history (limit + 1)
    { catalog with manifest := takeSegmentId catalog.manifest } := by
  have framed := session.frame same (Nat.le_succ limit)
  have bound := session.nextSegment
  have next : (takeSegmentId catalog.manifest).nextSegmentId.toNat =
      catalog.manifest.nextSegmentId.toNat + 1 :=
    toNat_succ (by omega)
  refine { framed with sound := ?_, segments := ?_, nextSegment := ?_ }
  · refine session.sound.of_ids rfl session.sound.named ?_
    rw [next]
    omega
  · intro segmentId present
    rw [next]
    exact (framed.segments segmentId present).trans (Nat.lt_succ_self _)
  · rw [next]
    omega

theorem Recorded.untouched (recorded : Recorded disk saved history limit)
    (same : Untouched disk after)
    (more : limit ≤ larger) (small : larger < 2 ^ 64) : Recorded after saved history larger :=
  recorded.frame same.manifest same.journal
    (fun segmentId present => same.segments segmentId ▸ present) more small

end Frame

/-- The attempt takes an id under which there is no file. -/
def Fresh (disk : Disk Path) (attempt : Attempt) : Prop :=
  ∀ segmentId, (disk (segmentPath segmentId)).isSome → attempt.entry.segmentId ≠ segmentId

/-- Segment files that are there keep their contents, the listed ones left out. -/
def Keeps (ids : List UInt64) (before after : Disk Path) : Prop :=
  ∀ segmentId, (before (segmentPath segmentId)).isSome → segmentId ∉ ids →
    after (segmentPath segmentId) = before (segmentPath segmentId)

theorem Untouched.keeps {before after : Disk Path}
    (same : Untouched before after) (ids : List UInt64) :
    Keeps ids before after := fun segmentId _ _ => same.segments segmentId

/-- What a step adds to the history: nothing, or an attempt of a given operation, left with its
operation logged and not committed only by a crash at one place. -/
def Grows (disk : Disk Path) (history longer : List Attempt) (op : JournalOp)
    (cut : Option Cut) (place : Nat) : Prop :=
  longer = history ∨ ∃ added, longer = history ++ [added] ∧ added.op = op ∧ Fresh disk added ∧
    (added.stage = .logged → ∃ crash, cut = some crash ∧ crash.count = place)

section Calls

variable {world : World} {saved : Manifest} {history : List Attempt}
  {limit : Nat} {catalog : Catalog}

theorem Invariant.recordedOnly {after : Disk Path} {attempts : List Bytes}
    (recorded : Recorded after saved history limit) (same : attempts = history.map Attempt.bytes) :
    Invariant ⟨after, none, attempts⟩ saved history limit :=
  ⟨recorded, same, fun _ impossible => by cases impossible⟩

theorem note_nil (world : World) : world.note [] = world.attempts := if_pos rfl

theorem toBytes_ne_nil (record : JournalRecord) : record.toBytes ≠ [] := by
  apply List.ne_nil_of_length_pos
  unfold JournalRecord.toBytes
  rw [List.length_append, length_u32]
  omega

theorem note_attempt (invariant : Invariant world saved history limit) (added : Attempt) :
    world.note added.bytes = (history ++ [added]).map Attempt.bytes := by
  have some : added.bytes ≠ [] := by
    obtain ⟨record, listed⟩ := List.exists_mem_of_ne_nil _ (records_ne_nil added)
    intro nil
    exact toBytes_ne_nil record (List.flatMap_eq_nil_iff.mp nil record listed)
  rw [World.note, if_neg some, invariant.attempts, List.map_append, List.map_singleton]

theorem installs_fresh {disk start : Disk Path} {op : JournalOp} {entry : SegmentMeta}
    {ids : List UInt64} {source : Path}
    (session : InSession disk saved history limit catalog)
    (installs : Installs disk start catalog op entry ids source) (stage : Stage) :
    Fresh disk (installs.attempt stage) := by
  intro segmentId present same
  have below := session.segments segmentId present
  rw [← same, show (installs.attempt stage).entry.segmentId =
    catalog.manifest.nextSegmentId from installs.id] at below
  exact lt_irrefl _ below

theorem install_keeps {disk start : Disk Path} {op : JournalOp} {entry : SegmentMeta}
    {ids : List UInt64} {source : Path}
    {contents : Bytes} (session : InSession disk saved history limit catalog)
    (installs : Installs disk start catalog op entry ids source) {count : Nat}
    (found : 4 ≤ count → start source = some contents) :
    Keeps ids disk (applyAll start ((done (installEffects catalog.manifest.nextTxId op source
      catalog.manifest.nextSegmentId
        (installManifest catalog.manifest ids entry) ids)).take count)) := by
  obtain ⟨creationTs, journal⟩ := session.journal
  obtain ⟨-, -, segments⟩ := @install_observed start _ contents catalog.manifest.nextTxId
    catalog.manifest.nextSegmentId op source (installManifest catalog.manifest ids entry) ids count
    (installs.untouched.journal.trans journal) installs.foreign found
  intro segmentId present kept
  have old : segmentId ≠ catalog.manifest.nextSegmentId := by
    rintro rfl
    exact lt_irrefl _ (session.segments _ present)
  have unlisted : segmentId ∉ ids.take (count - 6) :=
    fun listed => kept (List.mem_of_mem_take listed)
  rw [segments, installs.untouched.segments, if_neg unlisted, if_neg old, ite_self]

/-- The effects of a call that makes a transaction; `front` is what it does before. -/
structure Performs (disk start : Disk Path) (catalog : Catalog) (op : JournalOp)
    (entry : SegmentMeta) (ids : List UInt64)
    (source : Path) (contents : Bytes) (front effects : List (Effect Path)) : Prop where
  installs : Installs disk start catalog op entry ids source
  found : start source = some contents
  started : start = applyAll disk (done front)
  writes : ∀ effect ∈ front, ∃ path bytes, effect = .write path bytes
  untouched : ∀ count, Untouched disk (applyAll disk (done (front.take count)))
  effects : effects =
    front ++ installEffects catalog.manifest.nextTxId op source catalog.manifest.nextSegmentId
    (installManifest catalog.manifest ids entry) ids

namespace Performs

variable {disk start : Disk Path} {op : JournalOp} {entry : SegmentMeta}
  {ids : List UInt64} {source : Path}
  {contents : Bytes} {front effects : List (Effect Path)}

theorem length (performs : Performs disk start catalog op entry ids source contents front effects) :
    effects.length = front.length + (ids.length + 6) := by
  rw [performs.effects]
  simp [installEffects, transactionEffects, logEffects, saveEffects, removeEffects]

theorem silent (performs : Performs disk start catalog op entry ids source contents front effects)
    (count : Nat) :
    appendedBytes (done (front.take count)) = [] := by
  refine appendedBytes_silent fun step listed path bytes same => ?_
  obtain ⟨effect, among, rfl⟩ := List.mem_map.mp listed
  obtain ⟨_, _, rfl⟩ := performs.writes effect (List.mem_of_mem_take among)
  cases same

theorem steady (performs : Performs disk start catalog op entry ids source contents front effects) :
    ∀ step ∈ done effects, ∀ chosen, step.1 ≠ .sweep chosen := by
  intro step listed chosen same
  obtain ⟨effect, among, rfl⟩ := List.mem_map.mp listed
  rw [performs.effects] at among
  rcases List.mem_append.mp among with before | behind
  · obtain ⟨_, _, rfl⟩ := performs.writes effect before
    cases same
  · exact install_steady _ _ _ _ _ _ effect behind chosen same

theorem disk_at (performs : Performs disk start catalog op entry ids source contents front effects)
    (count : Nat) :
    applyAll disk ((done effects).take (front.length + count)) =
      applyAll start
        ((done (installEffects catalog.manifest.nextTxId op source catalog.manifest.nextSegmentId
        (installManifest catalog.manifest ids entry) ids)).take count) := by
  have size : (done front).length = front.length := by simp [done]
  rw [performs.effects, done_append, List.take_append, List.take_of_length_le (by omega),
    applyAll_append, ← performs.started, size, Nat.add_sub_cancel_left]

theorem appended_at
    (performs : Performs disk start catalog op entry ids source contents front effects)
    {count : Nat}
    (begun : 1 ≤ count) :
    appendedBytes ((done effects).take (front.length + count)) =
      (performs.installs.attempt (stageAt count)).bytes := by
  have size : (done front).length = front.length := by simp [done]
  have before : appendedBytes (done front) = [] := by
    have all := performs.silent front.length
    rwa [List.take_length] at all
  have behind : appendedBytes ((done effects).take (front.length + count)) =
      (([JournalOp.txBegin, op, .txCommit].take count).map
        (JournalRecord.mk catalog.manifest.nextTxId)).flatMap
        JournalRecord.toBytes := by
    rw [performs.effects, done_append, List.take_append, List.take_of_length_le (by omega),
      appendedBytes_append, before, List.nil_append, size, Nat.add_sub_cancel_left,
      install_appended]
  rw [behind, Attempt.bytes, Attempt.records, ops_stageAt performs.installs begun]
  rfl

theorem whole (performs : Performs disk start catalog op entry ids source contents front effects) :
    (done effects).take (front.length + (ids.length + 6)) = done effects := by
  refine List.take_of_length_le ?_
  rw [done, List.length_map, performs.length]

theorem keeps_at (performs : Performs disk start catalog op entry ids source contents front effects)
    (session : InSession disk saved history limit catalog) (count : Nat) :
    Keeps ids disk (applyAll disk ((done effects).take (front.length + count))) := by
  rw [performs.disk_at]
  exact install_keeps session performs.installs fun _ => performs.found

end Performs

section Install

variable {start : Disk Path} {op : JournalOp} {entry : SegmentMeta}
  {ids : List UInt64} {source : Path}
  {contents : Bytes} {front effects : List (Effect Path)} {α : Type} {value : α}

/-- The run of a call that makes a transaction and returns. -/
def installRun (disk : Disk Path) (catalog : Catalog) (ids : List UInt64) (entry : SegmentMeta)
    (effects : List (Effect Path)) (value : α) : Prog.Run Path Catalog Stop α :=
  ⟨.ok value, applyAll disk (done effects),
    { catalog with manifest := installManifest catalog.manifest ids entry }, [],
    done effects⟩

theorem install_finished (invariant : Invariant world saved history limit)
    (session : InSession world.disk saved history limit catalog)
    (performs : Performs world.disk start catalog op entry ids source contents front effects)
    (room : limit + 1 < 2 ^ 64) (value : α) :
    Invariant (world.afterCall (installRun world.disk catalog ids entry effects value) none)
      (installManifest catalog.manifest ids entry)
      (history ++ [performs.installs.attempt .committed]) (limit + 1) := by
  have recorded :=
    install_recorded invariant.recorded session performs.installs room
    (by omega : 1 ≤ ids.length + 6)
    fun _ => performs.found
  have open' := install_session session performs.installs room performs.found
  have stage : stageAt (ids.length + 6) = .committed := by
    unfold stageAt
    rw [if_neg (by omega), if_neg (by omega)]
  have complete : (done
      (installEffects catalog.manifest.nextTxId op source catalog.manifest.nextSegmentId
      (installManifest catalog.manifest ids entry) ids)).length ≤ ids.length + 6 := by
    simp [done, installEffects, transactionEffects, logEffects, saveEffects, removeEffects]
  have bytes := performs.appended_at (by omega : 1 ≤ ids.length + 6)
  rw [← performs.disk_at, performs.whole, if_neg (by omega), stage] at recorded
  rw [← List.take_of_length_le complete, ← performs.disk_at, performs.whole] at open'
  rw [performs.whole, stage] at bytes
  refine ⟨recorded, ?_, ?_⟩
  · change world.note (appendedBytes (done effects)) = _
    rw [bytes, note_attempt invariant]
  · rintro left ⟨⟩
    exact open'

theorem install_cut (invariant : Invariant world saved history limit)
    (session : InSession world.disk saved history limit catalog)
    (performs : Performs world.disk start catalog op entry ids source contents front effects)
    (room : limit + 1 < 2 ^ 64) (value : α) {crash : Cut} {count : Nat} (begun : 1 ≤ count)
    (counted : crash.count = front.length + count) (early : crash.count < effects.length) :
    Invariant (world.afterCall (installRun world.disk catalog ids entry effects value) (some crash))
        (if count < 6 then saved else installManifest catalog.manifest ids entry)
        (history ++ [performs.installs.attempt (stageAt count)]) (limit + 1) ∧
      Keeps ids world.disk (world.afterCall (installRun world.disk catalog ids entry effects value)
        (some crash)).disk := by
  unfold World.afterCall installRun
  dsimp only
  rw [if_pos (by simpa [done] using early), cutDisk_steady performs.steady]
  have recorded :=
    install_recorded invariant.recorded session performs.installs room begun fun _ => performs.found
  rw [← performs.disk_at] at recorded
  rw [counted, performs.appended_at begun, note_attempt invariant]
  exact ⟨.recordedOnly recorded rfl, performs.keeps_at session count⟩

/-- A call that makes a transaction, wherever it is cut. -/
theorem install_step (invariant : Invariant world saved history limit)
    (session : InSession world.disk saved history limit catalog)
    (performs : Performs world.disk start catalog op entry ids source contents front effects)
    (room : limit + 1 < 2 ^ 64) (value : α) (cut : Option Cut) :
    ∃ saved' longer,
      Invariant (world.afterCall (installRun world.disk catalog ids entry effects value) cut)
        saved' longer (limit + 1) ∧
      Grows world.disk history longer op cut (front.length + 2) ∧
      Keeps ids world.disk
        (world.afterCall (installRun world.disk catalog ids entry effects value) cut).disk := by
  have finished := install_finished invariant session performs room value
  have complete : Grows world.disk history (history ++ [performs.installs.attempt .committed]) op
      cut (front.length + 2) :=
    .inr ⟨performs.installs.attempt .committed, rfl, rfl,
      installs_fresh session performs.installs _, fun logged => by
      cases logged⟩
  have keepsAll : Keeps ids world.disk (applyAll world.disk (done effects)) := by
    have all := performs.keeps_at session (ids.length + 6)
    rwa [performs.whole] at all
  cases cut with
  | none => exact ⟨_, _, finished, complete, keepsAll⟩
  | some crash =>
    by_cases early : crash.count < effects.length
    · by_cases before : crash.count ≤ front.length
      · -- Nothing of the transaction is on disk.
        have shown : (done effects).take crash.count = done (front.take crash.count) := by
          rw [performs.effects, done_append,
            List.take_append_of_le_length (by simpa [done] using before), take_done]
        unfold World.afterCall installRun
        dsimp only
        rw [if_pos (by simpa [done] using early), cutDisk_steady performs.steady, shown,
          performs.silent, note_nil]
        exact ⟨saved, history,
          .recordedOnly (invariant.recorded.untouched (performs.untouched crash.count) (by omega)
          room) invariant.attempts, .inl rfl, (performs.untouched crash.count).keeps ids⟩
      · obtain ⟨count, counted⟩ : ∃ count, crash.count = front.length + count :=
          ⟨crash.count - front.length, by omega⟩
        obtain ⟨kept, keeps⟩ :=
          install_cut invariant session performs room value (by omega : 1 ≤ count) counted early
        refine ⟨_, _, kept, .inr ⟨_, rfl, rfl, installs_fresh session performs.installs _,
          fun logged => ⟨crash, rfl, ?_⟩⟩, keeps⟩
        have stage : stageAt count = .logged := logged
        unfold stageAt at stage
        split at stage
        · cases stage
        · split at stage
          · omega
          · cases stage
    · unfold World.afterCall installRun
      dsimp only
      rw [if_neg (by simpa [done] using early)]
      exact ⟨_, _, finished, complete, keepsAll⟩

end Install

theorem commit_installs {tempPath : Path} (foreign : Foreign tempPath)
    (disk : Disk Path) (catalog : Catalog)
    (entry : SegmentMeta) :
    Installs disk disk catalog (.addSegment (commitEntry catalog.manifest entry))
    (commitEntry catalog.manifest entry) []
      tempPath where
  adds := rfl
  removes := rfl
  named := rfl
  active := rfl
  id := rfl
  foreign := foreign
  short := by
    have name := length_segmentName catalog.manifest.nextSegmentId
    have size := length_toBytes_meta (commitEntry catalog.manifest entry)
    change (commitEntry catalog.manifest entry).toBytes.length < 2 ^ 32 - 16
    rw [size]
    change 70 + (segmentName catalog.manifest.nextSegmentId).length < 2 ^ 32 - 16
    omega
  untouched := .refl disk

theorem commit_performs {tempPath : Path} {file : Bytes} {disk : Disk Path}
    (foreign : Foreign tempPath)
    (there : disk tempPath = some file) (catalog : Catalog) (entry : SegmentMeta) :
    Performs disk disk catalog (.addSegment (commitEntry catalog.manifest entry))
    (commitEntry catalog.manifest entry) []
      tempPath file [] (commitEffects catalog.manifest tempPath entry) := by
  refine ⟨commit_installs foreign disk catalog entry, there, rfl, by simp, fun count => ?_, rfl⟩
  rw [List.take_nil]
  exact .refl disk

/-- A commit whose temporary file is missing ends with its ids used up and its transaction
journalled; no file belongs to it. -/
theorem absent_session {disk : Disk Path} {tempPath : Path} {entry : SegmentMeta}
    (session : InSession disk saved history limit catalog) (foreign : Foreign tempPath)
    (room : limit + 1 < 2 ^ 64) :
    InSession (applyAll disk (done (transactionEffects catalog.manifest.nextTxId
        (.addSegment (commitEntry catalog.manifest entry))))) saved
      (history ++ [(commit_installs foreign disk catalog entry).attempt .committed]) (limit + 1)
      { catalog with manifest := takeIds catalog.manifest } := by
  obtain ⟨creationTs, journal⟩ := session.journal
  have nextTx := session.nextTx
  have nextSegment := session.nextSegment
  have succTx : (takeIds catalog.manifest).nextTxId.toNat = catalog.manifest.nextTxId.toNat + 1 :=
    toNat_succ (by omega)
  have succSegment : (takeIds catalog.manifest).nextSegmentId.toNat =
      catalog.manifest.nextSegmentId.toNat + 1 :=
    toNat_succ (by omega)
  have segments : ∀ segmentId, applyAll disk (done (transactionEffects catalog.manifest.nextTxId
      (.addSegment (commitEntry catalog.manifest entry)))) (segmentPath segmentId) =
        disk (segmentPath segmentId) :=
    fun segmentId => log_frame (segmentPath_ne_journal segmentId) _ _ _
  have logged := log_journal journal catalog.manifest.nextTxId
    [.txBegin, .addSegment (commitEntry catalog.manifest entry), .txCommit]
  rw [← transactionEffects] at logged
  generalize applyAll disk (done (transactionEffects catalog.manifest.nextTxId
    (.addSegment (commitEntry catalog.manifest entry)))) = after at segments logged ⊢
  have grows := session.grows
  refine ⟨session.opened, ⟨creationTs, ?_⟩, takeIds_sound session.sound (by omega), ?_,
    ?_, ?_, ?_, ?_, ?_, ?_, ?_⟩
  · rw [logged, fileOf, fileOf, recordsOf, recordsOf, List.flatMap_append, List.flatMap_append,
      List.flatMap_singleton, List.append_assoc]
    rfl
  · intro segmentId present
    rw [segments] at present
    have below := session.segments segmentId present
    rw [succSegment]
    omega
  · intro attempt listed
    rw [succTx]
    rcases List.mem_append.mp listed with old | new
    · have below := (session.issued attempt old).1
      exact ⟨by omega, fun _ => by omega⟩
    · rw [List.mem_singleton.mp new]
      exact ⟨Nat.le_succ _, fun _ => Nat.lt_succ_self _⟩
  · refine .inr ⟨(commit_installs foreign disk catalog entry).attempt .committed, by simp, rfl, ?_⟩
    rw [succTx]
    exact le_rfl
  · rw [succTx]
    omega
  · rw [succTx]
    omega
  · rw [succSegment]
    omega
  · intro quiet other listed
    obtain ⟨attempt, owner, rfl⟩ :=
      session.live (fun attempt listed => quiet attempt (by simp [listed])) other listed
    refine ⟨attempt, Recorded.owner_append owner fun same => ?_, rfl⟩
    have below := session.sound.below _ (mem_activeSegments.mp listed).1
    rw [← same] at below
    exact absurd below (lt_irrefl _)
  · intro attempt owner valid undropped
    rw [segments] at valid
    rcases owner_snoc owner with ⟨rfl, -⟩ | ⟨old, -⟩
    · -- No file has the new id yet.
      cases there : disk (segmentPath catalog.manifest.nextSegmentId) with
      | none =>
        change fileValid (disk (segmentPath catalog.manifest.nextSegmentId)) = true at valid
        rw [there, fileValid_none] at valid
        cases valid
      | some file =>
        have below := session.segments catalog.manifest.nextSegmentId (by rw [there]; rfl)
        exact absurd below (lt_irrefl _)
    · exact session.covered attempt old valid fun dropped => undropped dropped.append

theorem commit_step {tempPath : Path} (invariant : Invariant world saved history limit)
    (session : InSession world.disk saved history limit catalog) (foreign : Foreign tempPath)
    (room : limit + 1 < 2 ^ 64) (entry : SegmentMeta) (cut : Option Cut) :
    ∃ saved' longer,
      Invariant (world.afterCall
        ((commitSegment tempPath entry).exec [] world.disk catalog) cut) saved' longer
        (limit + 1) ∧
      Grows world.disk history longer (.addSegment (commitEntry catalog.manifest entry)) cut 2 ∧
      Keeps [] world.disk
        (world.afterCall ((commitSegment tempPath entry).exec [] world.disk catalog) cut).disk := by
  have installs := commit_installs foreign world.disk catalog entry
  cases there : world.disk tempPath with
  | some file =>
    rw [commitSegment_exec session.opened foreign.journal (by rw [there]; rfl)]
    exact install_step invariant session (commit_performs foreign there catalog entry) room _ cut
  | none =>
    rw [commitSegment_absent session.opened foreign.journal there]
    generalize effects : transactionEffects catalog.manifest.nextTxId
      (.addSegment (commitEntry catalog.manifest entry)) = records
    have three : records.length = 3 := by rw [← effects]; rfl
    -- The records are those of an installation that gets no further.
    have same : ∀ count ≤ 3, (done records).take count =
        (done (installEffects catalog.manifest.nextTxId
        (.addSegment (commitEntry catalog.manifest entry)) tempPath catalog.manifest.nextSegmentId
        (installManifest catalog.manifest [] (commitEntry catalog.manifest entry))
          [])).take count := by
      intro count few
      rw [installEffects, effects, done_append,
        List.take_append_of_le_length (by simp [done, three, few])]
    have recordedAt : ∀ count, 1 ≤ count → count ≤ 3 →
        Recorded (applyAll world.disk ((done records).take count)) saved
        (history ++ [installs.attempt (stageAt count)]) (limit + 1) := by
      intro count some few
      have recorded :=
        @install_recorded _ _ _ _ _ _ _ _ _ _ [] invariant.recorded session installs room count some
        (fun late => by omega)
      rwa [if_pos (by omega), ← same count few] at recorded
    have bytesAt : ∀ count, 1 ≤ count → count ≤ 3 → appendedBytes ((done records).take count) =
        (installs.attempt (stageAt count)).bytes := by
      intro count some few
      rw [same count few, install_appended, Attempt.bytes, Attempt.records,
        ops_stageAt installs some]
      rfl
    have whole : (done records).take 3 = done records :=
      List.take_of_length_le (by simp [done, three])
    have finished : Invariant ⟨applyAll world.disk (done records),
        some { catalog with manifest := takeIds catalog.manifest },
        world.note (appendedBytes (done records))⟩ saved (history ++ [installs.attempt .committed])
          (limit + 1) := by
      have recorded := recordedAt 3 (by omega) le_rfl
      have bytes := bytesAt 3 (by omega) le_rfl
      rw [whole] at recorded bytes
      refine ⟨recorded, ?_, ?_⟩
      · dsimp only
        rw [bytes, note_attempt invariant]
        rfl
      · rintro left ⟨⟩
        have open' :=
          @absent_session saved history limit catalog world.disk tempPath entry session foreign room
        rwa [effects] at open'
    have complete : Grows world.disk history (history ++ [installs.attempt .committed])
        (.addSegment (commitEntry catalog.manifest entry)) cut 2 :=
      .inr ⟨installs.attempt .committed, rfl, rfl, installs_fresh session installs _,
        fun logged => by cases logged⟩
    have keeps : ∀ count,
        Keeps [] world.disk (applyAll world.disk ((done records).take count)) := by
      intro count segmentId _ _
      rw [take_done, ← effects, transactionEffects, logEffects, ← List.map_take, ← logEffects,
        log_frame (segmentPath_ne_journal segmentId)]
    have keepsAll : Keeps [] world.disk (applyAll world.disk (done records)) := whole ▸ keeps 3
    unfold World.afterCall
    cases cut with
    | none => exact ⟨_, _, finished, complete, keepsAll⟩
    | some crash =>
      dsimp only
      split
      · next early =>
        have short : crash.count < 3 := by simpa [done, three] using early
        rw [cutDisk_steady]
        · rcases Nat.eq_zero_or_pos crash.count with none | some
          · rw [none, List.take_zero]
            exact ⟨saved, history,
              .recordedOnly (invariant.recorded.untouched (.refl _) (by omega) room)
              (invariant.attempts ▸ note_nil world), .inl rfl, fun _ _ _ => rfl⟩
          · rw [bytesAt crash.count some short.le, note_attempt invariant]
            refine ⟨_, _, .recordedOnly (recordedAt crash.count some short.le) rfl,
              .inr ⟨_, rfl, rfl,
              installs_fresh session installs _, fun logged => ⟨crash, rfl, ?_⟩⟩, keeps crash.count⟩
            have stage : stageAt crash.count = .logged := logged
            unfold stageAt at stage
            split at stage
            · cases stage
            · omega
        · intro step listed chosen same
          obtain ⟨effect, among, rfl⟩ := List.mem_map.mp listed
          rw [← effects] at among
          obtain ⟨_, _, rfl⟩ := List.mem_map.mp among
          cases same
      · exact ⟨_, _, finished, complete, keepsAll⟩

theorem quiet_step {ids : List UInt64} {run : Prog.Run Path Catalog Stop (List UInt64)}
    (invariant : Invariant world saved history limit)
    (session : InSession world.disk saved history limit catalog)
    (quiet : Quiet world.disk catalog ids run)
    (disk : run.disk = applyAll world.disk run.performed)
    (room : limit + 1 < 2 ^ 64) (cut : Option Cut) :
    Invariant (world.afterCall run cut) saved history (limit + 1) ∧
      Untouched world.disk (world.afterCall run cut).disk := by
  obtain ⟨effects, performed, shape⟩ := quiet.performed
  have foreign := foreign_of_isTemporary (isTemporary_compactTmpPath catalog.manifest.nextSegmentId)
  have silent : appendedBytes run.performed = [] := by
    refine appendedBytes_silent fun step listed path bytes same => ?_
    rw [performed] at listed
    obtain ⟨effect, among, rfl⟩ := List.mem_map.mp listed
    rcases shape with rfl | ⟨file, rfl⟩ | rfl
    · cases among
    · rw [List.mem_singleton.mp among] at same
      cases same
    · rw [List.mem_singleton.mp among] at same
      cases same
  have untouched : Untouched world.disk run.disk := by
    rw [disk, performed]
    rcases shape with rfl | ⟨file, rfl⟩ | rfl
    · exact .refl _
    · exact (Untouched.refl world.disk).update foreign _
    · exact (Untouched.refl world.disk).update foreign _
  have finished : Invariant ⟨run.disk, survivor run, world.note (appendedBytes run.performed)⟩ saved
      history (limit + 1) := by
    rw [silent, note_nil]
    refine ⟨invariant.recorded.untouched untouched (by omega) room, invariant.attempts, ?_⟩
    intro left survives
    have kept := survivor_state survives
    subst kept
    rcases quiet.state with same | same
    · rw [same]
      exact session.frame untouched (by omega)
    · rw [same]
      exact session.takeSegment untouched room
  unfold World.afterCall
  cases cut with
  | none => exact ⟨finished, untouched⟩
  | some crash =>
    dsimp only
    split
    · next early =>
      -- There is at most one effect, so the crash comes before it.
      have first : crash.count = 0 := by
        rw [performed] at early
        rcases shape with rfl | ⟨file, rfl⟩ | rfl <;> simp [done] at early <;> omega
      rw [cutDisk_steady, first, List.take_zero]
      · exact ⟨.recordedOnly (invariant.recorded.untouched (.refl _) (by omega) room)
          (invariant.attempts ▸ note_nil world), .refl _⟩
      · intro step listed chosen same
        rw [performed] at listed
        obtain ⟨effect, among, rfl⟩ := List.mem_map.mp listed
        rcases shape with rfl | ⟨file, rfl⟩ | rfl
        · cases among
        · rw [List.mem_singleton.mp among] at same
          cases same
        · rw [List.mem_singleton.mp among] at same
          cases same
    · exact ⟨finished, untouched⟩

theorem length_compact_payload (ids : List UInt64) (entry : SegmentMeta) :
    (JournalOp.compactSegments ids [entry]).payload.length =
      8 * ids.length + 78 + entry.filename.length := by
  have words : (ids.flatMap u64).length = 8 * ids.length := by
    induction ids with
    | nil => rfl
    | cons id rest ih =>
      rw [List.flatMap_cons, List.length_append, ih, length_u64, List.length_cons]; omega
  rw [JournalOp.payload]
  simp only [List.length_append, length_u32, words, List.flatMap_singleton, length_toBytes_meta]
  omega

/-- The payload of the record of a compaction is below `2 ^ 32 - 16` bytes, whatever the new id. -/
def Fits (ids : List UInt64) : Prop := ids.length ≤ 2 ^ 29 - 16

theorem compact_installs {host : Host} {disk : Disk Path} {ids : List UInt64}
    {events : List CanonicalEvent} {file : Bytes}
    {entry : SegmentMeta} (compacts : Compacts host disk catalog.manifest ids events file entry)
    (fits : Fits ids) :
    Installs disk (Function.update disk (compactTmpPath catalog.manifest.nextSegmentId)
      (some file)) catalog
      (.compactSegments ids [entry]) entry ids (compactTmpPath catalog.manifest.nextSegmentId) := by
  obtain ⟨reader, -, rfl⟩ := compacts.opened
  have foreign := foreign_of_isTemporary (isTemporary_compactTmpPath catalog.manifest.nextSegmentId)
  refine ⟨rfl, rfl, rfl, rfl, rfl, foreign, ?_, (Untouched.refl disk).update foreign _⟩
  have name := length_segmentName catalog.manifest.nextSegmentId
  unfold Fits at fits
  rw [length_compact_payload]
  change 8 * ids.length + 78 + (segmentName catalog.manifest.nextSegmentId).length < 2 ^ 32 - 16
  omega

theorem compact_performs {host : Host} {disk : Disk Path} {ids : List UInt64}
    {events : List CanonicalEvent} {file : Bytes}
    {entry : SegmentMeta} (compacts : Compacts host disk catalog.manifest ids events file entry)
    (fits : Fits ids) :
    Performs disk (Function.update disk (compactTmpPath catalog.manifest.nextSegmentId)
      (some file)) catalog
      (.compactSegments ids [entry]) entry ids (compactTmpPath catalog.manifest.nextSegmentId) file
      [.write (compactTmpPath catalog.manifest.nextSegmentId) file]
      (compactEffects catalog.manifest ids file entry) := by
  have installs := compact_installs compacts fits
  refine ⟨installs, Function.update_self .., rfl, by simp, fun count => ?_, rfl⟩
  match count with
  | 0 => exact .refl _
  | more + 1 =>
    rw [List.take_of_length_le (by simp)]
    exact installs.untouched

theorem compact_step (host : Host) {ids : List UInt64}
    (invariant : Invariant world saved history limit)
    (session : InSession world.disk saved history limit catalog) (fits : Fits ids)
    (room : limit + 1 < 2 ^ 64)
    (cut : Option Cut) :
    ∃ saved' longer,
      Invariant (world.afterCall ((compactSegments host ids).exec [] world.disk catalog) cut)
        saved' longer (limit + 1) ∧
      (longer = history ∨
        ∃ entry, Grows world.disk history longer (.compactSegments ids [entry]) cut 3) ∧
      Keeps ids world.disk
        (world.afterCall ((compactSegments host ids).exec [] world.disk catalog) cut).disk := by
  rcases compactSegments_cases host world.disk ids session.opened with
    ⟨events, file, entry, compacts⟩ | quiet
  · obtain ⟨saved', longer, kept, grows, keeps⟩ :=
      install_step invariant session (compact_performs compacts fits) room
      [catalog.manifest.nextSegmentId] cut
    rw [compactSegments_exec session.opened compacts]
    exact ⟨saved', longer, kept, .inr ⟨entry, grows⟩, keeps⟩
  · obtain ⟨kept, untouched⟩ := quiet_step invariant session quiet (Prog.exec_disk ..) room cut
    exact ⟨saved, history, kept, .inl rfl, untouched.keeps ids⟩

theorem untouched_sweep (disk : Disk Path) (reached : Path → Bool) :
    Untouched disk ((Effect.sweep isTemporary).broken disk reached) := by
  have kept : ∀ path, isTemporary path = false →
      (Effect.sweep isTemporary).broken disk reached path = disk path := by
    intro path plain
    simp [Effect.broken, plain]
  exact ⟨kept _ (by decide), kept _ (by decide), fun segmentId =>
    kept _ (isTemporary_segmentPath segmentId)⟩

theorem untouched_swept (disk : Disk Path) : Untouched disk (swept disk) :=
  ⟨swept_of_not (by decide) disk, swept_of_not (by decide) disk, fun segmentId =>
    swept_of_not (isTemporary_segmentPath segmentId) disk⟩

theorem Recorded.rejournal {disk after : Disk Path} (recorded : Recorded disk saved history limit)
    (manifest : after manifestPath = disk manifestPath)
    (journal : SavedJournal after (recordsOf history))
    (segments : ∀ segmentId, after (segmentPath segmentId) = disk (segmentPath segmentId)) :
    Recorded after saved history limit where
  sound := recorded.sound
  manifest := by
    rw [SavedManifest, manifest]
    exact recorded.manifest
  journal := journal
  writable := recorded.writable
  ordered := recorded.ordered
  owners := fun segmentId present => recorded.owners segmentId (segments segmentId ▸ present)
  pending := recorded.pending
  issued := recorded.issued
  savedTx := recorded.savedTx
  savedSegment := recorded.savedSegment
  small := recorded.small

theorem saved_recorded {disk : Disk Path} {manifest : Manifest}
    (recorded : Recorded disk saved history limit)
    (result : recovered (swept disk) {} = .ok manifest) :
    Recorded (applyAll (swept disk) (done (saveEffects manifest))) manifest history limit := by
  have swept' := recorded.untouched (untouched_swept disk) le_rfl recorded.small
  have restored := swept'.restored result
  refine swept'.save restored.sound (save_manifest manifest (swept disk))
    (save_frame (by decide) (by decide) manifest (swept disk))
      (fun segmentId present => ?_) restored.grows
    restored.nextTx restored.nextSegment
  rwa [save_frame ((foreign_of_isTemporary (by decide)).segment segmentId).symm
    (segmentPath_ne_manifest segmentId)]
    at present

theorem save_untouched (manifest : Manifest) (disk : Disk Path) :
    applyAll (swept disk) (done (saveEffects manifest)) journalPath = disk journalPath ∧
      ∀ segmentId, applyAll (swept disk) (done (saveEffects manifest)) (segmentPath segmentId) =
        disk (segmentPath segmentId) := by
  refine ⟨?_, fun segmentId => ?_⟩
  · rw [save_frame (by decide) (by decide), (untouched_swept disk).journal]
  · rw [save_frame ((foreign_of_isTemporary (by decide)).segment segmentId).symm
      (segmentPath_ne_manifest segmentId),
      (untouched_swept disk).segments]

/-- A recovered catalog agrees with the history it was recovered from. -/
theorem open_session {disk after : Disk Path} {manifest : Manifest}
    (recorded : Recorded disk saved history limit)
    (result : recovered (swept disk) {} = .ok manifest)
    (journal : ∃ creationTs, after journalPath = some (fileOf creationTs (recordsOf history)))
    (segments : ∀ segmentId, after (segmentPath segmentId) = disk (segmentPath segmentId)) :
    InSession after manifest history limit { manifest, journal := ⟨some journalPath⟩ } := by
  have same := untouched_swept disk
  have swept' := recorded.untouched same le_rfl recorded.small
  have restored := swept'.restored result
  refine ⟨rfl, journal, restored.sound, fun segmentId present => ?_, restored.issued, .inl le_rfl,
    le_rfl, restored.nextTx,
    restored.nextSegment, fun _ entry listed => ?_, fun attempt owner valid undropped => ?_⟩
  · rw [segments, ← same.segments] at present
    exact restored.segments segmentId present
  · obtain ⟨attempt, owner, equal, -⟩ := (swept'.mem_recovered result entry).mp listed
    exact ⟨attempt, owner, equal⟩
  · rw [segments, ← same.segments] at valid
    exact (swept'.mem_recovered result attempt.entry).mpr ⟨attempt, owner, rfl, valid, undropped⟩

theorem open_step (invariant : Invariant world saved history limit)
    (now : UInt64) {cut : Option Cut}
    (careful : ∀ crash, cut = some crash → crash.count ≠ 5) :
    ∃ saved', Invariant
      (world.afterOpen ((Catalog.openCatalog now).exec [] world.disk {}) cut) saved' history limit ∧
      Keeps [] world.disk
        (world.afterOpen ((Catalog.openCatalog now).exec [] world.disk {}) cut).disk := by
  have recorded := invariant.recorded
  -- A crash up to the end of the sweep.
  have early : ∀ after, Untouched world.disk after →
      Invariant ⟨after, none, world.attempts⟩ saved history limit ∧ Keeps [] world.disk after :=
        fun after same =>
    ⟨.recordedOnly (recorded.untouched same le_rfl recorded.small) invariant.attempts,
      same.keeps []⟩
  cases result : recovered (swept world.disk) {} with
  | error stop =>
    rw [openCatalog_stops now result]
    unfold World.afterOpen
    cases cut with
    | none => exact ⟨saved, early _ (untouched_swept world.disk)⟩
    | some crash =>
      dsimp only
      split
      · next short =>
        obtain ⟨count, reached⟩ := crash
        have few : count < 2 := short
        interval_cases count
        · exact ⟨saved, early _ (.refl _)⟩
        · exact ⟨saved, early _ (untouched_sweep world.disk reached)⟩
      · exact ⟨saved, early _ (untouched_swept world.disk)⟩
  | ok manifest =>
    have later := saved_recorded recorded result
    obtain ⟨journal, segments⟩ := save_untouched manifest world.disk
    rw [openCatalog_exec now result]
    generalize middle : applyAll (swept world.disk) (done (saveEffects manifest)) =
      saving at later journal segments
    -- The files once the journal is open.
    have ended : ∃ after, applyAll world.disk
        (done (openEffects manifest (world.disk journalPath).isSome now)) = after ∧
        after manifestPath = saving manifestPath ∧
        (∃ creationTs, after journalPath = some (fileOf creationTs (recordsOf history))) ∧
        ∀ segmentId, after (segmentPath segmentId) = saving (segmentPath segmentId) := by
      refine ⟨_, rfl, ?_⟩
      have front : ∀ rest, applyAll world.disk
          (done (.mkdir :: .sweep isTemporary :: (saveEffects manifest ++ rest))) =
          applyAll saving (done rest) := by
        intro rest
        rw [← middle, ← applyAll_append, ← done_append]
        rfl
      rw [openEffects, front]
      rcases recorded.journal with ⟨creationTs, there⟩ | ⟨none, empty⟩
      · rw [there]
        have same : applyAll saving (done [.create journalPath]) = saving := by
          change Function.update saving journalPath (some ((saving journalPath).getD [])) = saving
          rw [journal, there, Option.getD_some, ← there, ← journal, Function.update_eq_self]
        simp only [Option.isSome_some, if_true]
        rw [same]
        exact ⟨rfl, ⟨creationTs, journal.trans there⟩, fun _ => rfl⟩
      · rw [none, empty]
        have made : applyAll saving
            (done [.create journalPath, .append journalPath (JournalHeader.toBytes now)]) =
            Function.update saving journalPath (some (JournalHeader.toBytes now)) := by
          change Function.update
            (Function.update saving journalPath (some ((saving journalPath).getD []))) journalPath
            (some (((Function.update saving journalPath (some ((saving journalPath).getD [])))
              journalPath).getD [] ++
              JournalHeader.toBytes now)) = _
          rw [Function.update_self, Function.update_idem, journal, none]
          rfl
        simp only [Option.isSome_none, Bool.false_eq_true, if_false]
        rw [made]
        refine ⟨Function.update_of_ne (by decide) _ _, ⟨now, ?_⟩, fun segmentId =>
          Function.update_of_ne (segmentPath_ne_journal segmentId) _ _⟩
        rw [Function.update_self, fileOf, List.flatMap_nil, List.append_nil]
    obtain ⟨after, same, afterManifest, afterJournal, afterSegments⟩ := ended
    have finished : Invariant ⟨after, some { manifest, journal := ⟨some journalPath⟩ },
      world.attempts⟩ manifest history
        limit := by
      refine ⟨later.rejournal afterManifest (.inl afterJournal) afterSegments,
        invariant.attempts, ?_⟩
      rintro left ⟨⟩
      exact open_session recorded result afterJournal fun segmentId =>
        (afterSegments segmentId).trans (segments segmentId)
    have keeps : Keeps [] world.disk after := fun segmentId _ _ =>
      (afterSegments segmentId).trans (segments segmentId)
    rw [same]
    unfold World.afterOpen
    cases cut with
    | none => exact ⟨manifest, finished, keeps⟩
    | some crash =>
      dsimp only
      split
      · next short =>
        obtain ⟨count, reached⟩ := crash
        have five : count ≠ 5 := careful _ rfl
        have few : count < 6 := by
          refine Nat.lt_of_lt_of_le short ?_
          cases (world.disk journalPath).isSome <;> simp [openEffects, done, saveEffects]
        interval_cases count
        · exact ⟨saved, early _ (.refl _)⟩
        · exact ⟨saved, early _ (untouched_sweep world.disk reached)⟩
        · exact ⟨saved, early _ (untouched_swept world.disk)⟩
        · refine ⟨saved, early _ ?_⟩
          exact (untouched_swept world.disk).update (foreign_of_isTemporary (by decide))
            (some manifest.serialize)
        · have four : cutDisk world.disk
              (done (openEffects manifest (world.disk journalPath).isSome now)) 4 reached =
              saving := by
            rw [← middle]
            rfl
          rw [four]
          exact ⟨manifest, .recordedOnly later invariant.attempts,
            fun segmentId _ _ => segments segmentId⟩
        · exact absurd rfl five
      · exact ⟨manifest, finished, keeps⟩

theorem Invariant.widen {larger : Nat} (invariant : Invariant world saved history limit)
    (more : limit ≤ larger)
    (small : larger < 2 ^ 64) : Invariant world saved history larger :=
  ⟨invariant.recorded.untouched (.refl _) more small, invariant.attempts, fun catalog found =>
    (invariant.session catalog found).frame (.refl _) more⟩

end Calls

/-- What the callers keep to. Files are put aside under names of their own, compactions fit a
journal record, and no opening dies between creating the journal and writing its header. -/
def CatalogOp.Careful : CatalogOp → Prop
  | .stage path _ => Foreign path
  | .leave => True
  | .openCatalog _ cut => ∀ crash, cut = some crash → crash.count ≠ 5
  | .commit tempPath _ _ => Foreign tempPath
  | .compact _ ids _ => Fits ids

/-- The attempt was made by the operation. Only a compaction that dies between its record and its
commit is left half done with something to remove. -/
def Attempt.From (attempt : Attempt) : CatalogOp → Prop
  | .commit _ _ _ => ∃ entry, attempt.op = .addSegment entry
  | .compact _ ids cut => (∃ entry, attempt.op = .compactSegments ids [entry]) ∧
    (attempt.stage = .logged → ∃ crash, cut = some crash ∧ crash.count = 3)
  | _ => False

/-- The ids of the segment files that the operation may delete. -/
def CatalogOp.removed : CatalogOp → List UInt64
  | .compact _ ids _ => ids
  | _ => []

section Runs

variable {world : World} {saved : Manifest} {history : List Attempt} {limit count : Nat}

theorem step_invariant (invariant : Invariant world saved history limit)
    {op : CatalogOp} (careful : op.Careful)
    (room : world.session.isSome → limit + 1 < 2 ^ 64) :
    ∃ saved' longer,
      Invariant (world.step op) saved' longer (if world.session.isSome then limit + 1 else limit) ∧
      (longer = history ∨ ∃ added, longer = history ++ [added] ∧ added.From op ∧
        Fresh world.disk added) ∧
      Keeps op.removed world.disk (world.step op).disk := by
  have enough : limit ≤ (if world.session.isSome then limit + 1 else limit) ∧
      (if world.session.isSome then limit + 1 else limit) < 2 ^ 64 := by
    split
    · next some => exact ⟨Nat.le_succ limit, room some⟩
    · exact ⟨le_rfl, invariant.recorded.small⟩
  cases op with
  | stage path file =>
    have same := (Untouched.refl world.disk).update careful (some file)
    refine ⟨saved, history, ⟨?_, invariant.attempts, fun catalog found => ?_⟩,
      .inl rfl, same.keeps []⟩
    · exact invariant.recorded.untouched same enough.1 enough.2
    · exact (invariant.session catalog found).frame same enough.1
  | leave =>
    refine ⟨saved, history, ?_, .inl rfl, fun _ _ _ => rfl⟩
    exact .recordedOnly
      (invariant.recorded.untouched (.refl _) enough.1 enough.2) invariant.attempts
  | openCatalog now cut =>
    obtain ⟨saved', kept, keeps⟩ := open_step invariant now careful
    exact ⟨saved', history, kept.widen enough.1 enough.2, .inl rfl, keeps⟩
  | commit tempPath entry cut =>
    unfold World.step
    cases found : world.session with
    | none =>
      simp only [found, Option.isSome_none, Bool.false_eq_true, if_false] at enough ⊢
      exact ⟨saved, history, invariant, .inl rfl, fun _ _ _ => rfl⟩
    | some catalog =>
      simp only [found, Option.isSome_some, if_true] at enough ⊢
      obtain ⟨saved', longer, kept, grows, keeps⟩ :=
        commit_step invariant (invariant.session catalog found) careful
        enough.2 entry cut
      refine ⟨saved', longer, kept, grows.imp_right ?_, keeps⟩
      rintro ⟨added, same, op, fresh, -⟩
      exact ⟨added, same, ⟨_, op⟩, fresh⟩
  | compact host ids cut =>
    unfold World.step
    cases found : world.session with
    | none =>
      simp only [found, Option.isSome_none, Bool.false_eq_true, if_false] at enough ⊢
      exact ⟨saved, history, invariant, .inl rfl, fun _ _ _ => rfl⟩
    | some catalog =>
      simp only [found, Option.isSome_some, if_true] at enough ⊢
      obtain ⟨saved', longer, kept, grows, keeps⟩ :=
        compact_step host invariant (invariant.session catalog found)
        careful enough.2 cut
      refine ⟨saved', longer, kept, ?_, keeps⟩
      rcases grows with same | ⟨entry, same | ⟨added, same, op, fresh, place⟩⟩
      · exact .inl same
      · exact .inl same
      · exact .inr ⟨added, same, ⟨⟨entry, op⟩, place⟩, fresh⟩

/-- A state after so many operations on a new directory. -/
structure Reached (world : World) (saved : Manifest) (history : List Attempt)
    (count : Nat) : Prop where
  invariant : Invariant world saved history (max 1 count)
  started : world.session.isSome → 1 ≤ count

theorem blank_reached (blank : world.Blank) : Reached world {} [] 0 := by
  obtain ⟨manifest, journal, segments, session, attempts⟩ := blank
  refine ⟨⟨?_, attempts, fun catalog found => ?_⟩, fun some => ?_⟩
  · refine ⟨sound_empty, .inr ⟨manifest, rfl⟩,
      .inr ⟨journal, rfl⟩, by simp [recordsOf], List.Pairwise.nil, ?_, by simp,
      by simp, le_rfl, le_rfl, by decide⟩
    intro segmentId present
    rw [segments] at present
    cases present
  · rw [session] at found
    cases found
  · rw [session] at some
    cases some

theorem Reached.step (reached : Reached world saved history count)
    {op : CatalogOp} (careful : op.Careful)
    (few : count + 1 < 2 ^ 64) :
    ∃ saved' longer, Reached (world.step op) saved' longer (count + 1) ∧
      (longer = history ∨ ∃ added, longer = history ++ [added] ∧ added.From op ∧
        Fresh world.disk added) ∧
      Keeps op.removed world.disk (world.step op).disk := by
  have start := reached.started
  obtain ⟨saved', longer, kept, grows⟩ := step_invariant reached.invariant careful fun some => by
    have one := start some
    omega
  refine ⟨saved', longer, ⟨kept.widen ?_ (by omega), fun _ => by omega⟩, grows⟩
  split
  · next some =>
    have one := start some
    omega
  · omega

/-- A run only adds to the history, and what it adds was made by its operations. -/
theorem Reached.run (reached : Reached world saved history count) (ops : List CatalogOp)
    (careful : ∀ op ∈ ops, op.Careful) (few : count + ops.length < 2 ^ 64) :
    ∃ saved' added, Reached (world.run ops) saved' (history ++ added) (count + ops.length) ∧
      ∀ attempt ∈ added, ∃ op ∈ ops, attempt.From op := by
  induction ops generalizing world saved history count with
  | nil =>
    refine ⟨saved, [], ?_, by simp⟩
    rw [List.append_nil]
    exact reached
  | cons op rest ih =>
    rw [List.length_cons] at few
    obtain ⟨middle, longer, kept, grows, -⟩ := reached.step (careful op (by simp)) (by omega)
    obtain ⟨saved', added, final, origin⟩ :=
      ih kept (fun other listed => careful other (by simp [listed])) (by omega)
    rw [List.length_cons, Nat.add_comm rest.length 1, ← Nat.add_assoc]
    rcases grows with rfl | ⟨first, rfl, made, -⟩
    · refine ⟨saved', added, final, fun attempt listed => ?_⟩
      obtain ⟨source, among, from'⟩ := origin attempt listed
      exact ⟨source, by simp [among], from'⟩
    · rw [List.append_assoc, List.singleton_append] at final
      refine ⟨saved', first :: added, final, fun attempt listed => ?_⟩
      rcases List.mem_cons.mp listed with rfl | later
      · exact ⟨op, by simp, made⟩
      · obtain ⟨source, among, from'⟩ := origin attempt later
        exact ⟨source, by simp [among], from'⟩

end Runs

end VectorTick
