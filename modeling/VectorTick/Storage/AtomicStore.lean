import VectorTick.Foundation.Ledger
import VectorTick.Storage.CompactionCrash

/-! The catalog as a store of events.

What the directory holds is a bag of events, those of the segments that a recovery would find. A
commit adds the events of its file, or none of them if it dies early; nothing else changes the bag,
wherever a process dies.
-/

set_option autoImplicit false

namespace VectorTick

open Foundation Journal Catalog Manifest SegmentWriter

/-- The segment is active for a recovery. -/
def Shown (disk : Disk Path) (history : List Attempt) (entry : SegmentMeta) : Prop :=
  ∃ attempt, Owner history attempt ∧ attempt.entry = entry ∧
    fileValid (disk (segmentPath entry.segmentId)) = true ∧
    ¬ Dropped history attempt.txId entry.segmentId

section Shown

variable {disk after : Disk Path} {history : List Attempt} {added : Attempt} {entry : SegmentMeta}

theorem Shown.named (shown : Shown disk history entry) : Named entry := by
  obtain ⟨attempt, -, rfl, -⟩ := shown
  exact attempt.named

theorem Shown.present (shown : Shown disk history entry) :
    (disk (segmentPath entry.segmentId)).isSome := by
  obtain ⟨-, -, -, valid, -⟩ := shown
  exact isSome_of_fileValid valid

theorem shown_congr (same : ∀ segmentId, after (segmentPath segmentId) =
    disk (segmentPath segmentId)) :
    Shown after history entry ↔ Shown disk history entry := by
  simp only [Shown, same]

theorem dropped_settled (settled : Settled history) {txId segmentId : UInt64} :
    Dropped history txId segmentId ↔ ∃ attempt ∈ history, attempt.stage = .committed ∧
      txId.toNat ≤ attempt.txId.toNat ∧ segmentId ∈ removes attempt.op := by
  constructor
  · rintro ⟨remover, listed, reach, removal, -⟩
    unfold Attempt.removed at removal
    cases stage : remover.stage with
    | begun => simp [stage] at removal
    | logged => simp [stage, settled remover listed stage] at removal
    | committed => exact ⟨remover, listed, stage, reach, by simpa [stage] using removal⟩
  · rintro ⟨remover, listed, committed, reach, removal⟩
    exact ⟨remover, listed,
      reach, by simpa [Attempt.removed, committed] using removal, remover, listed, rfl, committed⟩

theorem dropped_snoc (settled : Settled (history ++ [added])) {txId segmentId : UInt64} :
    Dropped (history ++ [added]) txId segmentId ↔ Dropped history txId segmentId ∨
      (added.stage = .committed ∧ txId.toNat ≤ added.txId.toNat ∧
        segmentId ∈ removes added.op) := by
  have before : Settled history :=
    fun attempt listed => settled attempt (List.mem_append_left _ listed)
  simp [dropped_settled settled, dropped_settled before, or_and_right, exists_or]

theorem shown_snoc_kept (settled : Settled (history ++ [added])) (fresh : Fresh disk added)
    (nothing : added.stage = .committed → removes added.op = [])
    (same : ∀ segmentId, after (segmentPath segmentId) = disk (segmentPath segmentId)) :
    Shown after (history ++ [added]) entry ↔ Shown disk history entry := by
  rw [shown_congr same]
  have dropped : ∀ txId, Dropped (history ++ [added]) txId entry.segmentId ↔
      Dropped history txId entry.segmentId := by
    intro txId
    rw [dropped_snoc settled, or_iff_left]
    rintro ⟨committed, -, removal⟩
    simp [nothing committed] at removal
  constructor
  · rintro ⟨attempt, owner, rfl, valid, undropped⟩
    rcases owner_snoc owner with ⟨rfl, -⟩ | ⟨old, -⟩
    · exact absurd rfl (fresh _ (isSome_of_fileValid valid))
    · exact ⟨attempt, old, rfl, valid, mt (dropped _).mpr undropped⟩
  · rintro ⟨attempt, owner, rfl, valid, undropped⟩
    exact ⟨attempt, Recorded.owner_append owner (fresh _ (isSome_of_fileValid valid)), rfl, valid,
      mt (dropped _).mp undropped⟩

theorem shown_snoc_installed (settled : Settled (history ++ [added])) (fresh : Fresh disk added)
    (committed : added.stage = .committed)
    (newest : ∀ attempt ∈ history, attempt.txId.toNat ≤ added.txId.toNat ∧
      (attempt.stage = .committed → attempt.txId.toNat < added.txId.toNat))
    (outside : added.entry.segmentId ∉ removes added.op)
    (same : ∀ segmentId ∉ removes added.op, segmentId ≠ added.entry.segmentId →
      after (segmentPath segmentId) = disk (segmentPath segmentId))
    (placed : fileValid (after (segmentPath added.entry.segmentId)) = true) :
    Shown after (history ++ [added]) entry ↔
      (Shown disk history entry ∧ entry.segmentId ∉ removes added.op) ∨ entry = added.entry := by
  have before : Settled history :=
    fun attempt listed => settled attempt (List.mem_append_left _ listed)
  constructor
  · rintro ⟨attempt, owner, rfl, valid, undropped⟩
    rw [dropped_snoc settled, not_or] at undropped
    rcases owner_snoc owner with ⟨rfl, -⟩ | ⟨old, apart⟩
    · exact .inr rfl
    · have kept : attempt.entry.segmentId ∉ removes added.op := fun removal =>
        undropped.2 ⟨committed, (newest attempt (Recorded.mem_of_owner old).1).1, removal⟩
      rw [same _ kept apart.symm] at valid
      exact .inl ⟨⟨attempt, old, rfl, valid, undropped.1⟩, kept⟩
  · rintro (⟨⟨attempt, owner, rfl, valid, undropped⟩, kept⟩ | rfl)
    · have apart := fresh _ (isSome_of_fileValid valid)
      refine ⟨attempt, Recorded.owner_append owner apart, rfl, ?_, ?_⟩
      · rwa [same _ kept apart.symm]
      · rw [dropped_snoc settled]
        rintro (old | ⟨-, -, removal⟩)
        · exact undropped old
        · exact kept removal
    · refine ⟨added, owner_last committed, rfl, placed, ?_⟩
      rw [dropped_snoc settled, dropped_settled before]
      rintro (⟨remover, listed, done, reach, -⟩ | ⟨-, -, removal⟩)
      · exact absurd ((newest remover listed).2 done) (Nat.not_lt.mpr reach)
      · exact outside removal

end Shown

/-- The events in a segment file, none if it cannot be read. -/
def fileEvents (found : Option Bytes) : List CanonicalEvent :=
  (SegmentReader.openFile found >>= SegmentReader.readAllEvents).toOption.getD []

/-- The events of some segments, in no order. -/
def stock (disk : Disk Path) (segments : List SegmentMeta) : Multiset CanonicalEvent :=
  ((segments.flatMap fun entry =>
    fileEvents (disk (segmentPath entry.segmentId)) : List CanonicalEvent) :
    Multiset CanonicalEvent)

/-- The listed segments are those that a recovery would find, all segment files can be read, and an
open catalog knows of the same segments. -/
structure Shelf (world : World) (history : List Attempt) (segments : List SegmentMeta) : Prop where
  settled : Settled history
  readable : ∀ segmentId file, world.disk (segmentPath segmentId) = some file →
    ∃ events, SegmentReader.Reads file events
  once : segments.Nodup
  shown : ∀ entry, entry ∈ segments ↔ Shown world.disk history entry
  live : ∀ catalog, world.session = some catalog → ∀ entry, entry ∈ catalog.activeSegments ↔
    entry ∈ segments

section Stock

variable {disk after : Disk Path} {world : World} {history : List Attempt}
  {segments : List SegmentMeta}

theorem fileEvents_reads {file : Bytes} {events : List CanonicalEvent}
    (reads : SegmentReader.Reads file events) :
    fileEvents (some file) = events := by
  obtain ⟨reader, opened, -, read⟩ := reads
  unfold fileEvents
  rw [opened, ok_bind, read]
  rfl

theorem stock_congr (same : ∀ entry ∈ segments, after (segmentPath entry.segmentId) =
    disk (segmentPath entry.segmentId)) :
    stock after segments = stock disk segments := by
  unfold stock
  rw [List.flatMap_congr fun entry listed => by rw [same entry listed]]

@[simp] theorem stock_append (first second : List SegmentMeta) :
    stock disk (first ++ second) = stock disk first + stock disk second := by
  simp [stock]

theorem stock_perm {others : List SegmentMeta} (perm : segments.Perm others) :
    stock disk segments = stock disk others :=
  Multiset.coe_eq_coe.mpr (perm.flatMap_right _)

theorem Shelf.segmentEvents (shelf : Shelf world history segments) {entry : SegmentMeta}
    (listed : entry ∈ segments) :
    segmentEvents world.disk entry =
      .ok (fileEvents (world.disk (segmentPath entry.segmentId))) := by
  have shown := (shelf.shown entry).mp listed
  obtain ⟨file, there⟩ := Option.isSome_iff_exists.mp shown.present
  obtain ⟨events, reads⟩ := shelf.readable _ file there
  have path : Path.root entry.filename = segmentPath entry.segmentId :=
    congrArg Path.root shown.named
  rw [there, fileEvents_reads reads]
  exact segmentEvents_of_reads (path ▸ there) reads

theorem Shelf.valid (shelf : Shelf world history segments) (segmentId : UInt64) :
    world.disk (segmentPath segmentId) = none ∨
      fileValid (world.disk (segmentPath segmentId)) = true := by
  cases there : world.disk (segmentPath segmentId) with
  | none => exact .inl rfl
  | some file =>
    obtain ⟨events, reads⟩ := shelf.readable segmentId file there
    refine .inr ?_
    rw [fileValid, segmentValid_of_reads reads]
    rfl

theorem Shelf.recovers (shelf : Shelf world history segments) {saved : Manifest} {limit : Nat}
    (recorded : Recorded world.disk saved history limit) :
    (freshRecovery world.disk).outcome = .ok () ∧ ∃ events,
      activeEvents (freshRecovery world.disk).disk
        (freshRecovery world.disk).state.manifest = .ok events ∧
        (events : Multiset CanonicalEvent) = stock world.disk segments := by
  obtain ⟨manifest, result⟩ := recovers_valid recorded shelf.valid
  have clean := recorded.untouched (untouched_swept world.disk) le_rfl recorded.small
  have mem : ∀ entry, entry ∈ manifest.activeSegments ↔ entry ∈ segments := by
    intro entry
    rw [shelf.shown, ← shown_congr (untouched_swept world.disk).segments]
    exact clean.mem_recovered result entry
  have run : freshRecovery world.disk = _ := recover_exec {} result
  have holding : Holding (resaved world.disk manifest) manifest fun segmentId =>
      fileEvents (world.disk (segmentPath segmentId)) := by
    intro seg listed
    have old := (mem seg).mp listed
    rw [← shelf.segmentEvents old]
    exact segmentEvents_named ((shelf.shown seg).mp old).named
      (resaved_segmentPath world.disk manifest seg.segmentId)
  rw [run]
  refine ⟨rfl, manifest.activeSegments.flatMap fun seg =>
    fileEvents (world.disk (segmentPath seg.segmentId)), ?_, ?_⟩
  · dsimp only
    rw [resaved_eq]
    exact activeEvents_eq holding
  · exact stock_perm
      ((List.perm_ext_iff_of_nodup (nodup_activeSegments (clean.restored result).sound.distinct)
      shelf.once).mpr mem)

theorem Shelf.keep (shelf : Shelf world history segments) {next : World} {longer : List Attempt}
    (settled : Settled longer)
    (same : ∀ segmentId, next.disk (segmentPath segmentId) = world.disk (segmentPath segmentId))
    (shown : ∀ entry, Shown next.disk longer entry ↔ Shown world.disk history entry)
    (live : ∀ catalog, next.session = some catalog → ∀ entry, entry ∈ catalog.activeSegments ↔
      entry ∈ segments) :
    Shelf next longer segments where
  settled := settled
  readable := fun segmentId file there => shelf.readable segmentId file (same segmentId ▸ there)
  once := shelf.once
  shown := fun entry => (shelf.shown entry).trans (shown entry).symm
  live := live

end Stock

section Open

variable {world : World} {saved : Manifest} {history : List Attempt} {limit : Nat}
  {segments : List SegmentMeta}

theorem openEffects_spare (manifest : Manifest) (journalled : Bool) (now segmentId : UInt64) :
    ∀ step ∈ done (openEffects manifest journalled now), step.1.Spares (segmentPath segmentId) := by
  have plain := isTemporary_segmentPath segmentId
  have tmp :=
    ((foreign_of_isTemporary (show isTemporary manifestTmpPath = true by decide)).segment
    segmentId).symm
  have saved := segmentPath_ne_manifest segmentId
  have journal := segmentPath_ne_journal segmentId
  cases journalled <;> simp [openEffects, saveEffects, done, Effect.Spares,
    plain, tmp, saved, journal]

theorem Shelf.openStep (shelf : Shelf world history segments)
    (invariant : Invariant world saved history limit)
    (now : UInt64) (cut : Option Cut) :
    (∀ segmentId, (world.afterOpen ((Catalog.openCatalog now).exec [] world.disk {}) cut).disk
      (segmentPath segmentId) =
      world.disk (segmentPath segmentId)) ∧
      Shelf (world.afterOpen ((Catalog.openCatalog now).exec [] world.disk {}) cut) history
        segments := by
  have recorded := invariant.recorded
  obtain ⟨manifest, result⟩ := recovers_valid recorded shelf.valid
  have clean := recorded.untouched (untouched_swept world.disk) le_rfl recorded.small
  have spare := openEffects_spare manifest (world.disk journalPath).isSome now
  have found : ∀ entry, entry ∈ manifest.activeSegments ↔ entry ∈ segments := by
    intro entry
    rw [shelf.shown, ← shown_congr (untouched_swept world.disk).segments]
    exact clean.mem_recovered result entry
  have keep : ∀ next : World,
      (∀ segmentId, next.disk (segmentPath segmentId) = world.disk (segmentPath segmentId)) →
      (∀ catalog, next.session = some catalog → catalog.manifest = manifest) →
      (∀ segmentId, next.disk (segmentPath segmentId) = world.disk (segmentPath segmentId)) ∧
        Shelf next history segments := by
    intro next same session
    refine ⟨same, shelf.keep shelf.settled same (fun entry => shown_congr same) ?_⟩
    intro catalog there entry
    rw [Catalog.activeSegments, session catalog there]
    exact found entry
  have finished : ∀ next : World, next.disk = applyAll world.disk (done (openEffects manifest
      (world.disk journalPath).isSome now)) →
        next.session = some { manifest, journal := ⟨some journalPath⟩ } →
      (∀ segmentId, next.disk (segmentPath segmentId) = world.disk (segmentPath segmentId)) ∧
        Shelf next history segments := by
    intro next disk session
    apply keep next
    · intro segmentId
      rw [disk]
      exact applyAll_spares (spare segmentId) world.disk
    · intro catalog there
      rw [session] at there
      cases there
      rfl
  rw [openCatalog_exec now result]
  cases cut with
  | none => exact finished _ rfl rfl
  | some crash =>
    unfold World.afterOpen
    dsimp only
    by_cases early : crash.count <
      (done (openEffects manifest (world.disk journalPath).isSome now)).length
    · rw [if_pos early]
      apply keep
      · intro segmentId
        exact cutDisk_spares (spare segmentId) world.disk crash.count crash.reached
      · intro catalog there
        cases there
    · rw [if_neg early]
      exact finished _ rfl rfl

end Open

section Install

variable {world : World} {start : Disk Path} {saved : Manifest}
  {history : List Attempt} {limit : Nat}
  {segments : List SegmentMeta} {catalog : Catalog} {op : JournalOp}
  {entry : SegmentMeta} {ids : List UInt64}
  {source : Path} {contents : Bytes} {merged : List CanonicalEvent}
  {front effects : List (Effect Path)}

theorem Performs.segments_at
    (performs : Performs world.disk start catalog op entry ids source contents front effects)
    (session : InSession world.disk saved history limit catalog)
    (count : Nat) (segmentId : UInt64) :
    applyAll world.disk ((done effects).take (front.length + count)) (segmentPath segmentId) =
      if count < 4 then world.disk (segmentPath segmentId)
      else if segmentId ∈ ids.take (count - 6) then none
      else if segmentId = catalog.manifest.nextSegmentId then
        some contents else world.disk (segmentPath segmentId) := by
  obtain ⟨creationTs, journal⟩ := session.journal
  obtain ⟨-, -, observed⟩ := @install_observed start _ contents catalog.manifest.nextTxId
    catalog.manifest.nextSegmentId op source (installManifest catalog.manifest ids entry) ids count
    (performs.installs.untouched.journal.trans journal) performs.installs.foreign fun _ =>
      performs.found
  rw [performs.disk_at, observed, performs.installs.untouched.segments]

theorem Shelf.begun (shelf : Shelf world history segments)
    (session : InSession world.disk saved history limit catalog)
    (installs : Installs world.disk start catalog op entry ids source) {count : Nat}
    (harmless : ids ≠ [] → count ≤ 1)
    {next : World} (closed : next.session = none)
    (same : ∀ segmentId, next.disk (segmentPath segmentId) = world.disk (segmentPath segmentId)) :
    Shelf next (history ++ [installs.attempt (stageAt count)]) segments := by
  -- A stage behind the first is only reached with nothing to remove.
  have nothing : (installs.attempt (stageAt count)).stage ≠ .begun →
      removes (installs.attempt (stageAt count)).op = [] := by
    intro late
    by_contra removal
    have early := harmless (installs.removes ▸ removal)
    exact late (if_pos early)
  have settled := settled_snoc shelf.settled fun logged => nothing (by simp [logged])
  refine shelf.keep settled same (fun entry => ?_) fun catalog there => ?_
  · apply shown_snoc_kept settled (installs_fresh session installs _) _ same
    exact fun committed => nothing (by simp [committed])
  · rw [closed] at there
    cases there

theorem Shelf.installed (shelf : Shelf world history segments)
    (found : world.session = some catalog)
    (session : InSession world.disk saved history limit catalog)
    (installs : Installs world.disk start catalog op entry ids source) (room : limit + 1 < 2 ^ 64)
    (outside : entry.segmentId ∉ ids) (reads : SegmentReader.Reads contents merged)
    {gone : List UInt64} (part : gone ⊆ ids)
    {next : World}
    (files : ∀ segmentId, next.disk (segmentPath segmentId) = if segmentId ∈ gone then none
      else if segmentId = catalog.manifest.nextSegmentId then
        some contents else world.disk (segmentPath segmentId))
    (memory : ∀ left, next.session = some left →
      left.manifest = installManifest catalog.manifest ids entry) :
    Shelf next (history ++ [installs.attempt .committed])
    (segments.filter (·.segmentId ∉ ids) ++ [entry]) ∧
      stock next.disk (segments.filter (·.segmentId ∉ ids) ++ [entry]) =
        stock world.disk (segments.filter (·.segmentId ∉ ids)) +
          (merged : Multiset CanonicalEvent) := by
  have nextSegment := session.nextSegment
  have settled : Settled (history ++ [installs.attempt .committed]) :=
    settled_snoc shelf.settled fun logged => by
    cases logged
  have placed : next.disk (segmentPath entry.segmentId) = some contents := by
    rw [files, if_neg fun listed => outside (part listed), if_pos installs.id]
  have same : ∀ segmentId ∉ ids, segmentId ≠ entry.segmentId →
      next.disk (segmentPath segmentId) = world.disk (segmentPath segmentId) := by
    intro segmentId kept apart
    rw [files, if_neg fun listed => kept (part listed), if_neg fun new =>
      apart (new.trans installs.id.symm)]
  have older : ∀ other ∈ segments, other.segmentId ≠ entry.segmentId := by
    intro other listed equal
    have below := session.segments _ ((shelf.shown other).mp listed).present
    rw [equal, installs.id] at below
    exact lt_irrefl _ below
  have shown : ∀ other, Shown next.disk (history ++ [installs.attempt .committed]) other ↔
      (Shown world.disk history other ∧ other.segmentId ∉ ids) ∨ other = entry := by
    intro other
    have removal : removes (installs.attempt .committed).op = ids := installs.removes
    have valid : fileValid (next.disk (segmentPath entry.segmentId)) = true := by
      rw [placed, fileValid, segmentValid_of_reads reads]
      rfl
    have replaced :=
      @shown_snoc_installed _ next.disk _ _ other settled (installs_fresh session installs _) rfl
      session.issued (by rwa [removal]) (by rwa [removal]) valid
    rwa [removal] at replaced
  refine ⟨⟨settled, ?_, ?_, ?_, ?_⟩, ?_⟩
  · intro segmentId file there
    rw [files] at there
    by_cases removed : segmentId ∈ gone
    · simp [removed] at there
    · by_cases new : segmentId = catalog.manifest.nextSegmentId
      · rw [if_neg removed, if_pos new] at there
        cases there
        exact ⟨merged, reads⟩
      · rw [if_neg removed, if_neg new] at there
        exact shelf.readable segmentId file there
  · refine List.nodup_append.mpr ⟨shelf.once.filter _, List.nodup_singleton entry, ?_⟩
    intro other listed last single equal
    obtain rfl := List.mem_singleton.mp single
    exact older other (List.mem_of_mem_filter listed) (congrArg SegmentMeta.segmentId equal)
  · intro other
    simp [shown, shelf.shown]
  · intro left there other
    have active :=
      @mem_active_installManifest entry _ session.sound
      (by omega) installs.id installs.active ids other
    rw [Catalog.activeSegments, memory left there, active]
    simp [← shelf.live catalog found, Catalog.activeSegments]
  · rw [stock_append]
    congr 1
    · refine stock_congr fun other listed => same _ ?_ (older other (List.mem_of_mem_filter listed))
      simpa using List.of_mem_filter listed
    · simp [stock, placed, fileEvents_reads reads]

theorem afterCall_finished {α : Type} (world : World)
    {run : Prog.Run Path Catalog Stop α} {cut : Option Cut}
    (late : ∀ crash, cut = some crash → run.performed.length ≤ crash.count) :
    world.afterCall run cut = world.afterCall run none := by
  cases cut with
  | none => rfl
  | some crash => exact if_neg (Nat.not_lt.mpr (late crash rfl))

theorem afterCall_cut {α : Type} (world : World) {run : Prog.Run Path Catalog Stop α} {crash : Cut}
    (early : crash.count < run.performed.length) :
    world.afterCall run (some crash) =
      ⟨cutDisk world.disk run.performed crash.count crash.reached, none,
      world.note (appendedBytes (run.performed.take crash.count))⟩ :=
  if_pos early

/-- The call was cut before its end. -/
def CutShort (cut : Option Cut) (length : Nat) : Prop :=
  ∃ crash, cut = some crash ∧ crash.count < length

/-- What a call leaves that makes a transaction: all of it, or nothing if it was cut. -/
def Leaves (world : World) (segments : List SegmentMeta) (ids : List UInt64)
    (merged : List CanonicalEvent)
    (cutShort : Prop) (limit : Nat) (next : World) : Prop :=
  ∃ saved history rest, Invariant next saved history limit ∧ Shelf next history rest ∧
    ((stock next.disk rest = stock world.disk segments ∧ cutShort) ∨
      stock next.disk rest =
        stock world.disk (segments.filter (·.segmentId ∉ ids)) + (merged : Multiset CanonicalEvent))

theorem Shelf.finished {α : Type} (shelf : Shelf world history segments)
    (invariant : Invariant world saved history limit)
    (found : world.session = some catalog)
    (performs : Performs world.disk start catalog op entry ids source contents front effects)
    (room : limit + 1 < 2 ^ 64) (outside : entry.segmentId ∉ ids)
    (reads : SegmentReader.Reads contents merged) (value : α)
    (cutShort : Prop) :
    Leaves world segments ids merged cutShort (limit + 1)
      (world.afterCall (installRun world.disk catalog ids entry effects value) none) := by
  have session := invariant.session catalog found
  have files : ∀ segmentId,
      (world.afterCall (installRun world.disk catalog ids entry effects value) none).disk
      (segmentPath segmentId) = if segmentId ∈ ids.take (ids.length + 6 - 6) then none
      else if segmentId = catalog.manifest.nextSegmentId then
        some contents else world.disk (segmentPath segmentId) := by
    intro segmentId
    have place := performs.segments_at session (ids.length + 6) segmentId
    rwa [performs.whole, if_neg (by omega)] at place
  obtain ⟨rest, held⟩ :=
    shelf.installed found session performs.installs room outside reads (List.take_subset _ _) files
    fun left there => by
      cases there
      rfl
  exact ⟨_, _, _, install_finished invariant session performs room value, rest, .inr held⟩

/-- A transaction, wherever it is cut but where its removals are journalled
and its file is not in place. -/
theorem Shelf.install {α : Type} (shelf : Shelf world history segments)
    (invariant : Invariant world saved history limit)
    (found : world.session = some catalog)
    (performs : Performs world.disk start catalog op entry ids source contents front effects)
    (room : limit + 1 < 2 ^ 64) (outside : entry.segmentId ∉ ids)
    (reads : SegmentReader.Reads contents merged) (value : α)
    (cut : Option Cut)
    (harmless : ids ≠ [] → ∀ crash, cut = some crash → crash.count ≠ front.length + 2 ∧
      crash.count ≠ front.length + 3) :
    Leaves world segments ids merged (CutShort cut effects.length) (limit + 1)
      (world.afterCall (installRun world.disk catalog ids entry effects value) cut) := by
  have session := invariant.session catalog found
  have length : (installRun world.disk catalog ids entry effects value).performed.length =
      effects.length :=
    List.length_map _
  by_cases late : ∀ crash, cut = some crash → effects.length ≤ crash.count
  · rw [afterCall_finished world (length ▸ late)]
    exact shelf.finished invariant found performs room outside reads value _
  push Not at late
  obtain ⟨crash, rfl, early⟩ := late
  have cutShort : CutShort (some crash) effects.length := ⟨crash, rfl, early⟩
  by_cases before : crash.count ≤ front.length
  · -- Nothing of the transaction is on disk.
    have shown : (done effects).take crash.count = done (front.take crash.count) := by
      rw [performs.effects, done_append,
        List.take_append_of_le_length (by simpa [done] using before), take_done]
    have same := performs.untouched crash.count
    rw [afterCall_cut world (length ▸ early)]
    dsimp only [installRun]
    rw [cutDisk_steady performs.steady, shown, performs.silent, note_nil]
    refine ⟨saved, history, segments,
      .recordedOnly (invariant.recorded.untouched same (Nat.le_succ limit) room)
      invariant.attempts, ?_, .inl ⟨stock_congr fun other _ => same.segments _, cutShort⟩⟩
    exact shelf.keep shelf.settled same.segments (fun other => shown_congr same.segments)
      fun left there => by cases there
  obtain ⟨count, counted⟩ : ∃ count, crash.count = front.length + count :=
    ⟨crash.count - front.length, by omega⟩
  obtain ⟨kept, -⟩ :=
    install_cut invariant session performs room value (by omega : 1 ≤ count) counted early
  have place := performs.segments_at session count
  rw [afterCall_cut world (length ▸ early)] at kept ⊢
  dsimp only [installRun] at kept ⊢
  rw [cutDisk_steady performs.steady, counted] at kept ⊢
  by_cases waiting : count < 4
  · have same : ∀ segmentId, applyAll world.disk ((done effects).take (front.length + count))
        (segmentPath segmentId) =
        world.disk (segmentPath segmentId) := by
      intro segmentId
      rw [place, if_pos waiting]
    refine ⟨_, _, segments, kept, ?_, .inl ⟨stock_congr fun other _ => same _, cutShort⟩⟩
    refine shelf.begun session performs.installs (fun some => ?_) rfl same
    have apart := harmless some crash rfl
    omega
  · have stage : stageAt count = .committed := by
      unfold stageAt
      rw [if_neg (by omega), if_neg (by omega)]
    rw [stage] at kept
    simp only [waiting, if_false] at place
    refine ⟨_, _, _, kept,
      And.imp_right .inr (shelf.installed found session performs.installs room outside reads
      (List.take_subset _ _) place fun left there => ?_)⟩
    cases there

end Install

/-- The events that an operation puts forward: those of the file of a commit. -/
def CatalogOp.offered (world : World) : CatalogOp → Multiset CanonicalEvent
  | .commit tempPath _ _ =>
    if world.session.isSome then (fileEvents (world.disk tempPath) : Multiset CanonicalEvent) else 0
  | _ => 0

/-- A commit that returns a path to its caller. -/
def CatalogOp.Acknowledged (world : World) : CatalogOp → Prop
  | .commit tempPath entry cut => ∃ catalog path, world.session = some catalog ∧
      ((commitSegment tempPath entry).exec [] world.disk catalog).outcome = .ok path ∧
      ¬ CutShort cut ((commitSegment tempPath entry).exec [] world.disk catalog).performed.length
  | _ => False

/-- What the callers keep to. Files put aside for commits are segments; a compaction lists active
segments once, and no more rows than a segment may have. It does not die between its removals and
its new file: there the process loses events. -/
def CatalogOp.Proper (world : World) : CatalogOp → Prop
  | .stage path _ => Foreign path
  | .leave => True
  | .openCatalog _ cut => ∀ crash, cut = some crash → crash.count ≠ 5
  | .commit tempPath _ _ => Foreign tempPath ∧ ∀ file, world.disk tempPath = some file →
      ∃ events, SegmentReader.Reads file events
  | .compact _ ids cut =>
    Fits ids ∧ ids.Nodup ∧ (∀ crash, cut = some crash → crash.count ≠ 3 ∧ crash.count ≠ 4) ∧
      (ids.flatMap fun segmentId => fileEvents (world.disk (segmentPath segmentId))).length ≤
        SegmentConfig.maxRowsPerSegment ∧
      ∀ catalog, world.session = some catalog →
        ∀ segmentId ∈ ids, segmentId ∈ catalog.activeSegments.map (·.segmentId)

/-- An operation takes all that it offers or nothing, and all of it if it is acknowledged. -/
def Accounts (world : World) (segments : List SegmentMeta) (op : CatalogOp) (limit : Nat)
    (next : World) : Prop :=
  ∃ saved history rest, Invariant next saved history limit ∧ Shelf next history rest ∧
    ∃ taken : Bool, (op.Acknowledged world → taken = true) ∧
      stock next.disk rest = stock world.disk segments + if taken then op.offered world else 0

section Operations

variable {world : World} {saved : Manifest} {history : List Attempt} {limit : Nat}
  {segments : List SegmentMeta}
  {catalog : Catalog}

theorem afterCall_session {α : Type} {run : Prog.Run Path Catalog Stop α}
    {cut : Option Cut} {left : Catalog}
    (there : (world.afterCall run cut).session = some left) : left = run.state := by
  by_cases late : ∀ crash, cut = some crash → run.performed.length ≤ crash.count
  · rw [afterCall_finished world late] at there
    exact survivor_state there
  · push Not at late
    obtain ⟨crash, rfl, early⟩ := late
    rw [afterCall_cut world early] at there
    cases there

theorem afterCall_spares {α : Type} {run : Prog.Run Path Catalog Stop α} {path : Path}
    (disk : run.disk = applyAll world.disk run.performed)
    (spares : ∀ step ∈ run.performed, step.1.Spares path)
    (cut : Option Cut) : (world.afterCall run cut).disk path = world.disk path := by
  by_cases late : ∀ crash, cut = some crash → run.performed.length ≤ crash.count
  · rw [afterCall_finished world late]
    exact (congrFun disk path).trans (applyAll_spares spares world.disk)
  · push Not at late
    obtain ⟨crash, rfl, early⟩ := late
    rw [afterCall_cut world early]
    exact cutDisk_spares spares world.disk crash.count crash.reached

theorem Accounts.keep {op : CatalogOp} {next : World} {saved' : Manifest}
    {longer : List Attempt} {larger : Nat}
    (shelf : Shelf next longer segments) (invariant : Invariant next saved' longer larger)
    (silent : ¬ op.Acknowledged world)
    (same : ∀ segmentId, next.disk (segmentPath segmentId) = world.disk (segmentPath segmentId)) :
    Accounts world segments op larger next :=
  ⟨saved', longer, segments, invariant, shelf, false, fun done => absurd done silent, by
    simpa using stock_congr fun other _ => same other.segmentId⟩

theorem Shelf.commitAbsent (shelf : Shelf world history segments)
    (invariant : Invariant world saved history limit)
    (found : world.session = some catalog) {tempPath : Path} (foreign : Foreign tempPath)
    (absent : world.disk tempPath = none) (room : limit + 1 < 2 ^ 64)
    (entry : SegmentMeta) (cut : Option Cut) :
    Accounts world segments (.commit tempPath entry cut) (limit + 1)
      (world.afterCall ((commitSegment tempPath entry).exec [] world.disk catalog) cut) := by
  have session := invariant.session catalog found
  obtain ⟨saved', longer, kept, grows, -⟩ := commit_step invariant session foreign room entry cut
  have silent : ¬ CatalogOp.Acknowledged world (.commit tempPath entry cut) := by
    rintro ⟨other, path, same, returned, -⟩
    obtain rfl := Option.some.inj (found.symm.trans same)
    rw [commitSegment_absent session.opened foreign.journal absent] at returned
    cases returned
  rw [commitSegment_absent session.opened foreign.journal absent] at kept ⊢
  generalize failed : (⟨_, _, _, _, _⟩ : Prog.Run Path Catalog Stop Path) = run at kept ⊢
  have same : ∀ segmentId, (world.afterCall run cut).disk (segmentPath segmentId) =
      world.disk (segmentPath segmentId) := by
    intro segmentId
    apply afterCall_spares
    · rw [← failed]
    · rw [← failed]
      simp [done, transactionEffects, logEffects, Effect.Spares, segmentPath_ne_journal]
  refine .keep ?_ kept silent same
  have settled : Settled longer := by
    rcases grows with rfl | ⟨added, rfl, op, -⟩
    · exact shelf.settled
    · exact settled_snoc shelf.settled fun _ => by rw [op]; rfl
  refine shelf.keep settled same (fun other => ?_) fun left there => ?_
  · rcases grows with rfl | ⟨added, rfl, op, fresh, -⟩
    · exact shown_congr same
    · exact shown_snoc_kept settled fresh (fun _ => by rw [op]; rfl) same
  · rw [afterCall_session there, ← failed]
    exact shelf.live catalog found

theorem Shelf.commit (shelf : Shelf world history segments)
    (invariant : Invariant world saved history limit)
    (found : world.session = some catalog) {tempPath : Path} (foreign : Foreign tempPath)
    (reads : ∀ file, world.disk tempPath = some file → ∃ events, SegmentReader.Reads file events)
    (room : limit + 1 < 2 ^ 64) (entry : SegmentMeta) (cut : Option Cut) :
    Accounts world segments (.commit tempPath entry cut) (limit + 1)
      (world.afterCall ((commitSegment tempPath entry).exec [] world.disk catalog) cut) := by
  cases there : world.disk tempPath with
  | none => exact shelf.commitAbsent invariant found foreign there room entry cut
  | some file =>
    obtain ⟨events, read⟩ := reads file there
    have session := invariant.session catalog found
    have performs := commit_performs foreign there catalog entry
    have run : (commitSegment tempPath entry).exec [] world.disk catalog =
        installRun world.disk catalog []
        (commitEntry catalog.manifest entry) (commitEffects catalog.manifest tempPath entry)
        (segmentPath catalog.manifest.nextSegmentId) :=
      commitSegment_exec session.opened foreign.journal (by rw [there]; rfl)
    have length : (done (commitEffects catalog.manifest tempPath entry)).length =
        (commitEffects catalog.manifest tempPath entry).length := List.length_map _
    obtain ⟨saved', longer, rest, kept, shelf', held⟩ :=
      shelf.install invariant found performs room List.not_mem_nil read
      (segmentPath catalog.manifest.nextSegmentId) cut fun some => absurd rfl some
    have offered : CatalogOp.offered world (.commit tempPath entry cut) =
        (events : Multiset CanonicalEvent) := by
      simp [CatalogOp.offered, found, there, fileEvents_reads read]
    rw [run]
    refine ⟨saved', longer, rest, kept, shelf', ?_⟩
    rcases held with ⟨same, cutShort⟩ | more
    · refine ⟨false, ?_, by simpa using same⟩
      rintro ⟨other, path, again, -, through⟩
      obtain rfl := Option.some.inj (found.symm.trans again)
      rw [run] at through
      exact absurd (length ▸ cutShort) through
    · refine ⟨true, fun _ => rfl, ?_⟩
      rw [if_pos rfl, offered]
      simpa using more

theorem Shelf.split (shelf : Shelf world history segments)
    (session : InSession world.disk saved history limit catalog)
    (found : world.session = some catalog) {ids : List UInt64} (once : ids.Nodup)
    (active : ∀ segmentId ∈ ids, segmentId ∈ catalog.activeSegments.map (·.segmentId)) :
    stock world.disk segments = stock world.disk (segments.filter (·.segmentId ∉ ids)) +
      ((ids.flatMap fun segmentId =>
        fileEvents (world.disk (segmentPath segmentId)) : List CanonicalEvent) :
        Multiset CanonicalEvent) := by
  have perm : segments.Perm catalog.activeSegments :=
    (List.perm_ext_iff_of_nodup shelf.once (nodup_activeSegments session.sound.distinct)).mpr
      fun entry =>
      (shelf.live catalog found entry).symm
  have parts :=
    @others_perm catalog.manifest
    (fun segmentId => fileEvents (world.disk (segmentPath segmentId))) ids
    session.sound once active
  rw [stock_perm perm, stock_perm (perm.filter _), stock, stock, Multiset.coe_add]
  exact Multiset.coe_eq_coe.mpr parts.symm

theorem Shelf.holding (shelf : Shelf world history segments)
    (found : world.session = some catalog) :
    Holding world.disk catalog.manifest fun segmentId =>
      fileEvents (world.disk (segmentPath segmentId)) :=
  fun seg listed => shelf.segmentEvents ((shelf.live catalog found seg).mp listed)

theorem Shelf.compact (shelf : Shelf world history segments)
    (invariant : Invariant world saved history limit)
    (found : world.session = some catalog) {host : Host} {ids : List UInt64} {cut : Option Cut}
    (proper : CatalogOp.Proper world (.compact host ids cut)) (room : limit + 1 < 2 ^ 64) :
    Accounts world segments (.compact host ids cut) (limit + 1)
      (world.afterCall ((compactSegments host ids).exec [] world.disk catalog) cut) := by
  obtain ⟨fits, once, harmless, rows, listed⟩ := proper
  have active := listed catalog found
  have session := invariant.session catalog found
  rcases compactSegments_cases host world.disk ids session.opened with
    ⟨events, file, entry, compacts⟩ | quiet
  · have collected := collectEvents_eq session.sound.distinct (shelf.holding found) active
    obtain rfl := Except.ok.inj (collected.symm.trans compacts.collected)
    have performs := compact_performs compacts fits
    have permuted :=
      host.order.perm (ids.flatMap fun segmentId => fileEvents (world.disk (segmentPath segmentId)))
    obtain ⟨fresh, writer, created, added, written⟩ := compacts.written
    have reads : SegmentReader.Reads file
        (host.order.sort
          (ids.flatMap fun segmentId => fileEvents (world.disk (segmentPath segmentId)))) := by
      apply SegmentReader.writeToFile_reads
        (SegmentWriter.holds_of_addEvents created added) _ _ written
      · exact fun none => compacts.nonempty (List.perm_nil.mp (none ▸ permuted.symm))
      · rwa [permuted.length_eq]
    have outside : entry.segmentId ∉ ids := by
      intro among
      obtain ⟨seg, known, same⟩ := List.mem_map.mp (active _ among)
      have below := session.sound.below seg (mem_activeSegments.mp known).1
      rw [same, performs.installs.id] at below
      exact lt_irrefl _ below
    obtain ⟨saved', longer, rest, kept, shelf', held⟩ :=
      shelf.install invariant found performs room outside reads
      [catalog.manifest.nextSegmentId] cut fun _ => harmless
    have run : (compactSegments host ids).exec [] world.disk catalog =
        installRun world.disk catalog ids entry
        (compactEffects catalog.manifest ids file entry) [catalog.manifest.nextSegmentId] :=
      compactSegments_exec session.opened compacts
    rw [run]
    refine ⟨saved', longer, rest, kept, shelf', false, fun done => absurd done id, ?_⟩
    have whole := shelf.split session found once active
    rw [← Multiset.coe_eq_coe.mpr permuted] at whole
    rcases held with ⟨same, -⟩ | same
    · simpa using same
    · simpa [whole] using same
  · obtain ⟨kept, untouched⟩ := quiet_step invariant session quiet (Prog.exec_disk ..) room cut
    refine .keep ?_ kept id untouched.segments
    refine shelf.keep shelf.settled untouched.segments (fun other => shown_congr untouched.segments)
      fun left there => ?_
    rw [afterCall_session there]
    rcases quiet.state with same | same
    · rw [same]
      exact shelf.live catalog found
    · rw [same]
      exact shelf.live catalog found

theorem Accounts.widen {op : CatalogOp} {next : World} {larger : Nat}
    (accounts : Accounts world segments op limit next)
    (more : limit ≤ larger) (small : larger < 2 ^ 64) : Accounts world segments op larger next := by
  obtain ⟨saved', longer, rest, invariant, shelf, taken⟩ := accounts
  exact ⟨saved', longer, rest, invariant.widen more small, shelf, taken⟩

theorem Shelf.step (shelf : Shelf world history segments)
    (invariant : Invariant world saved history limit)
    {op : CatalogOp} (proper : op.Proper world) {larger : Nat} (more : limit ≤ larger)
    (small : larger < 2 ^ 64)
    (room : world.session.isSome → limit + 1 ≤ larger) :
    Accounts world segments op larger (world.step op) := by
  cases op with
  | stage path file =>
    have same := (Untouched.refl world.disk).update proper (some file)
    refine .keep
      (shelf.keep shelf.settled same.segments (fun other => shown_congr same.segments) shelf.live)
      ⟨invariant.recorded.untouched same more small, invariant.attempts,
        fun catalog found => ?_⟩ id same.segments
    exact (invariant.session catalog found).frame same more
  | leave =>
    have closed : Shelf (world.step .leave) history segments :=
      shelf.keep shelf.settled (fun _ => rfl) (fun _ => Iff.rfl) fun left there => by cases there
    exact .keep closed
      (.recordedOnly (invariant.recorded.untouched (.refl _) more small) invariant.attempts) id
      fun _ => rfl
  | openCatalog now cut =>
    obtain ⟨saved', kept, -⟩ := open_step invariant now proper
    obtain ⟨same, opened⟩ := shelf.openStep invariant now cut
    exact .keep opened (kept.widen more small) id same
  | commit tempPath entry cut =>
    cases found : world.session with
    | none =>
      have idle : world.step (.commit tempPath entry cut) = world := by simp [World.step, found]
      rw [idle]
      refine .keep shelf (invariant.widen more small) ?_ fun _ => rfl
      rintro ⟨catalog, path, there, -⟩
      rw [found] at there
      cases there
    | some catalog =>
      have enough := room (by rw [found]; rfl)
      have ran := shelf.commit invariant found proper.1 proper.2 (by omega) entry cut
      have called : world.step (.commit tempPath entry cut) =
          world.afterCall ((commitSegment tempPath entry).exec [] world.disk catalog) cut := by
            simp [World.step, found]
      rw [called]
      exact ran.widen enough small
  | compact host ids cut =>
    cases found : world.session with
    | none =>
      have idle : world.step (.compact host ids cut) = world := by simp [World.step, found]
      rw [idle]
      exact .keep shelf (invariant.widen more small) id fun _ => rfl
    | some catalog =>
      have enough := room (by rw [found]; rfl)
      have ran := shelf.compact invariant found proper (by omega)
      have called : world.step (.compact host ids cut) =
          world.afterCall ((compactSegments host ids).exec [] world.disk catalog) cut := by
            simp [World.step, found]
      rw [called]
      exact ran.widen enough small

/-- A fresh recovery, and the catalog that is open if there is one, read these events. -/
structure Serves (world : World) (bag : Multiset CanonicalEvent) : Prop where
  recovers : (freshRecovery world.disk).outcome = .ok ()
  recovered : ∃ events,
    activeEvents (freshRecovery world.disk).disk (freshRecovery world.disk).state.manifest =
    .ok events ∧ (events : Multiset CanonicalEvent) = bag
  live : ∀ catalog, world.session = some catalog →
    ∃ events, activeEvents world.disk catalog.manifest = .ok events ∧
    (events : Multiset CanonicalEvent) = bag

theorem Shelf.serves (shelf : Shelf world history segments)
    (invariant : Invariant world saved history limit) :
    Serves world (stock world.disk segments) := by
  obtain ⟨returned, recovered⟩ := shelf.recovers invariant.recorded
  refine ⟨returned, recovered, fun catalog found => ⟨_, activeEvents_eq (shelf.holding found), ?_⟩⟩
  have distinct := (invariant.session catalog found).sound.distinct
  exact stock_perm ((List.perm_ext_iff_of_nodup (nodup_activeSegments distinct) shelf.once).mpr
    (shelf.live catalog found))

end Operations

/-- The catalog keeps account of the commits. -/
def catalogLedger : Ledger World.step (fun world op => op.Proper world)
    (fun world op => op.Acknowledged world)
    (fun world op => op.offered world) (2 ^ 64 - 1) where
  Holds count world bag :=
    ∃ saved history segments, Reached world saved history count ∧ Shelf world history segments ∧
    stock world.disk segments = bag
  takes := by
    rintro count world op _ ⟨saved, history, segments, reached, shelf, rfl⟩ proper few
    have started := reached.started
    have room : world.session.isSome → max 1 count + 1 ≤ count + 1 := fun some => by
      have one := started some
      omega
    obtain ⟨saved', longer, rest, invariant, shelf', taken, acknowledged, after⟩ :=
      @Shelf.step _ _ _ _ _ shelf reached.invariant _ proper (count + 1) (by omega) (by omega) room
    refine ⟨taken, acknowledged, saved', longer, rest, ⟨?_, fun _ => by omega⟩, shelf', after⟩
    rwa [Nat.max_eq_right (by omega)]

theorem blank_shelf {start : World} (blank : start.Blank) : Shelf start [] [] := by
  obtain ⟨-, -, segments, session, -⟩ := blank
  refine ⟨fun attempt listed => (List.not_mem_nil listed).elim,
    fun segmentId file there => ?_, List.nodup_nil,
    fun entry => ?_, fun catalog found => ?_⟩
  · rw [segments] at there
    cases there
  · refine iff_of_false List.not_mem_nil fun shown => ?_
    have present := shown.present
    rw [segments] at present
    cases present
  · rw [session] at found
    cases found

theorem blank_holds {start : World} (blank : start.Blank) : catalogLedger.Holds 0 start 0 :=
  ⟨{}, [], [], blank_reached blank, blank_shelf blank, rfl⟩

theorem serves_of_holds {count : Nat} {world : World} {bag : Multiset CanonicalEvent}
    (holds : catalogLedger.Holds count world bag) : Serves world bag := by
  obtain ⟨saved, history, segments, reached, shelf, rfl⟩ := holds
  exact shelf.serves reached.invariant

/-- Over any run of commits, compactions, crashes and recoveries, what can be read is the sum of
whole commits, each once: all that were acknowledged, and of the others those that came far enough.
Which ones is settled when they are made. -/
theorem recovery_reads_commits {start : World} (blank : start.Blank) {ops : List CatalogOp}
    (proper : Allowed World.step (fun world op => op.Proper world) ops start)
    (few : ops.length < 2 ^ 64) :
    ∃ taken : Fin ops.length → Bool,
      (∀ i : Fin ops.length, ops[i].Acknowledged (start.run (ops.take i)) → taken i = true) ∧
      ∀ count ≤ ops.length, Serves (start.run (ops.take count))
        (takenTotal World.step (fun world op => op.offered world) ops start taken count) := by
  obtain ⟨taken, acknowledged, held⟩ := catalogLedger.run (blank_holds blank) proper (by omega)
  refine ⟨taken, acknowledged, fun count inside => ?_⟩
  have holds := held count inside
  rw [Nat.zero_add, zero_add] at holds
  exact serves_of_holds holds

-- A quote is committed, and its segment compacted on its own.

def quoteRun (file : Bytes) : List CatalogOp :=
  [.openCatalog 0 none, .stage quotePath file, .commit quotePath {} none,
    .compact plainHost [1] none]

theorem quoteRun_proper {file : Bytes} (reads : SegmentReader.Reads file [quoteEvent]) :
    Allowed World.step (fun world op => op.Proper world) (quoteRun file) blankWorld := by
  have staged : blankWorld.run [.openCatalog 0 none, .stage quotePath file] = quoteStaged file :=
    rfl
  have committed := quoteCommitted_segments file 1
  rw [if_pos rfl] at committed
  refine ⟨fun crash same => (by cases same), quotePath_foreign,
    ⟨quotePath_foreign, fun other there => ?_⟩,
    ⟨quote_fits, List.nodup_singleton 1, fun crash same => (by cases same), ?_,
      fun catalog found => ?_⟩, trivial⟩
  · have same := quoteStaged_file file
    rw [← staged] at same
    exact ⟨[quoteEvent], Option.some.inj (same.symm.trans there) ▸ reads⟩
  · change ([1].flatMap fun segmentId =>
      fileEvents ((quoteCommitted file).disk (segmentPath segmentId))).length ≤ _
    simp [committed, fileEvents_reads reads, SegmentConfig.maxRowsPerSegment]
  · have known := quoteCommitted_session file
    change (quoteCommitted file).session = some catalog at found
    obtain rfl := Option.some.inj (known.symm.trans found)
    exact quote_listed

theorem quoteRun_total {file : Bytes}
    (reads : SegmentReader.Reads file [quoteEvent]) {taken : Fin 4 → Bool}
    (acknowledged : ∀ i : Fin 4,
      (quoteRun file)[i].Acknowledged (blankWorld.run ((quoteRun file).take i)) →
      taken i = true) :
    takenTotal World.step (fun world op => op.offered world)
    (quoteRun file) blankWorld taken 4 = {quoteEvent} := by
  have there := quoteStaged_file file
  have present : ((quoteStaged file).disk quotePath).isSome := by simp [there]
  have done : taken (2 : Fin 4) = true := by
    apply acknowledged (2 : Fin 4)
    refine ⟨_, segmentPath 1, quoteStaged_session file, ?_, fun short => ?_⟩
    · exact congrArg Prog.Run.outcome (commitSegment_exec rfl quotePath_foreign.journal present)
    · obtain ⟨crash, same, -⟩ := short
      cases same
  have third : (CatalogOp.commit quotePath {} none).offered (quoteStaged file) = {quoteEvent} := by
    simp [CatalogOp.offered, quoteStaged_session, there, fileEvents_reads reads]
  change ∑ i : Fin 4, _ = _
  rw [Fin.sum_univ_four,
    if_pos (show (2 : Fin 4).val < 4 ∧ taken (2 : Fin 4) = true from ⟨by decide, done⟩)]
  simp only [CatalogOp.offered, quoteRun, Fin.getElem_fin]
  -- the three other operations offer nothing
  change (if _ then 0 else 0) + (if _ then 0 else 0) +
    (CatalogOp.commit quotePath {} none).offered (quoteStaged file) +
    (if _ then 0 else 0) = _
  simp [third]

theorem recovery_reads_commits_quote :
    ∃ file, SegmentReader.Reads file [quoteEvent] ∧
      Serves (blankWorld.run (quoteRun file)) {quoteEvent} := by
  obtain ⟨file, reads⟩ := quote_readable
  obtain ⟨taken, acknowledged, serves⟩ :=
    recovery_reads_commits blankWorld_blank (quoteRun_proper reads) (by simp [quoteRun])
  exact ⟨file, reads, quoteRun_total reads acknowledged ▸ serves 4 (by simp [quoteRun])⟩

end VectorTick
