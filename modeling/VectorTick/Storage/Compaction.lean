import VectorTick.Storage.Isolation

/-! What compaction does to the events of a catalog. -/

set_option autoImplicit false

namespace VectorTick

open Foundation Journal Catalog Manifest SegmentWriter

def segmentEvents (disk : Disk Path) (seg : SegmentMeta) : Except Stop (List CanonicalEvent) := do
  let reader ← SegmentReader.openFile (disk (.root seg.filename))
  reader.readAllEvents

def segmentsEvents (disk : Disk Path) : List SegmentMeta → Except Stop (List CanonicalEvent)
  | [] => .ok []
  | seg :: rest => do
    let events ← segmentEvents disk seg
    let others ← segmentsEvents disk rest
    return events ++ others

/-- All events of the active segments, one segment after the other. -/
def activeEvents (disk : Disk Path) (manifest : Manifest) : Except Stop (List CanonicalEvent) :=
  segmentsEvents disk manifest.activeSegments

/-- A file that a segment writer made of accepted events, and from which they can be read. -/
structure Written (file : Bytes) (events : List CanonicalEvent) : Prop where
  made : ∃ segmentId maxRows fresh writer memory, SegmentWriter.new segmentId maxRows = .ok fresh ∧
    fresh.addEvents events = .ok writer ∧ writer.writeToFile memory = .ok file
  readable : SegmentReader.Reads file events

section Events

variable {disk after : Disk Path} {manifest : Manifest} {contents : UInt64 → List CanonicalEvent}

theorem Written.nonempty {file : Bytes} {events : List CanonicalEvent}
    (written : Written file events) : events ≠ [] := by
  obtain ⟨segmentId, maxRows, fresh, writer, memory, created, added, wrote⟩ := written.made
  rintro rfl
  have rows : writer.rowCount = 0 := (holds_of_addEvents created added).rowCount
  simp only [writeToFile, rows, if_true] at wrote
  cases wrote

theorem segmentEvents_of_reads {seg : SegmentMeta} {file : Bytes} {events : List CanonicalEvent}
    (there : disk (.root seg.filename) = some file) (reads : SegmentReader.Reads file events) :
    segmentEvents disk seg = .ok events := by
  obtain ⟨reader, opened, -, read⟩ := reads
  unfold segmentEvents
  rw [there, opened, ok_bind, read]

theorem segmentEvents_congr {seg : SegmentMeta}
    (same : after (.root seg.filename) = disk (.root seg.filename)) :
    segmentEvents after seg = segmentEvents disk seg := by
  unfold segmentEvents
  rw [same]

theorem segmentsEvents_eq {segments : List SegmentMeta}
    {contents : SegmentMeta → List CanonicalEvent}
    (each : ∀ seg ∈ segments, segmentEvents disk seg = .ok (contents seg)) :
    segmentsEvents disk segments = .ok (segments.flatMap contents) := by
  induction segments with
  | nil => rfl
  | cons seg rest ih =>
    unfold segmentsEvents
    rw [each seg (by simp), ok_bind, ih fun other listed => each other (by simp [listed]),
      ok_bind, List.flatMap_cons]
    rfl

theorem segmentsEvents_append {first second : List SegmentMeta} {front behind : List CanonicalEvent}
    (one : segmentsEvents disk first = .ok front) (two : segmentsEvents disk second = .ok behind) :
    segmentsEvents disk (first ++ second) = .ok (front ++ behind) := by
  induction first generalizing front with
  | nil =>
    cases one
    exact two
  | cons seg rest ih =>
    rw [List.cons_append, segmentsEvents]
    rw [segmentsEvents] at one
    cases read : segmentEvents disk seg with
    | error stop =>
      rw [read, error_bind] at one
      cases one
    | ok events =>
      rw [read, ok_bind] at one
      rw [ok_bind]
      cases others : segmentsEvents disk rest with
      | error stop =>
        rw [others, error_bind] at one
        cases one
      | ok remaining =>
        rw [others, ok_bind] at one
        cases one
        rw [ih others, ok_bind, List.append_assoc]
        rfl

/-- What each active segment holds, given by its id. -/
def Holding (disk : Disk Path) (manifest : Manifest)
    (contents : UInt64 → List CanonicalEvent) : Prop :=
  ∀ seg ∈ manifest.activeSegments, segmentEvents disk seg = .ok (contents seg.segmentId)

theorem activeEvents_eq (holding : Holding disk manifest contents) :
    activeEvents disk manifest =
      .ok (manifest.activeSegments.flatMap fun seg => contents seg.segmentId) :=
  segmentsEvents_eq holding

theorem collectEvents_eq (distinct : Distinct manifest.segments)
    (holding : Holding disk manifest contents)
    {ids : List UInt64}
    (active : ∀ segmentId ∈ ids, segmentId ∈ manifest.activeSegments.map (·.segmentId)) :
    collectEvents disk manifest ids = .ok (ids.flatMap contents) := by
  induction ids with
  | nil => rfl
  | cons segmentId rest ih =>
    obtain ⟨seg, listed, rfl⟩ := List.mem_map.mp (active segmentId (by simp))
    have found : manifest.findSegment seg.segmentId = some seg :=
      (findSegment_iff distinct).mpr ((mem_activeSegments_iff distinct).mp listed)
    have held := holding seg listed
    unfold segmentEvents at held
    unfold collectEvents
    rw [found, ih fun other among => active other (by simp [among]), List.flatMap_cons]
    dsimp only
    cases opened : SegmentReader.openFile (disk (.root seg.filename)) with
    | error stop =>
      rw [opened, error_bind] at held
      cases held
    | ok reader =>
      rw [opened, ok_bind] at held
      rw [ok_bind, held, ok_bind, ok_bind]
      rfl

theorem nodup_active (distinct : Distinct manifest.segments) :
    (manifest.activeSegments.map (·.segmentId)).Nodup :=
  distinct.sublist (List.filter_sublist.map _)

theorem listed_perm (distinct : Distinct manifest.segments) {ids : List UInt64} (once : ids.Nodup)
    (active : ∀ segmentId ∈ ids, segmentId ∈ manifest.activeSegments.map (·.segmentId)) :
    ((manifest.activeSegments.filter (·.segmentId ∈ ids)).flatMap fun seg =>
      contents seg.segmentId).Perm
      (ids.flatMap contents) := by
  have names : ((manifest.activeSegments.filter (·.segmentId ∈ ids)).map
      (·.segmentId)).Perm ids := by
    refine (List.perm_ext_iff_of_nodup
      ((nodup_active distinct).sublist (List.filter_sublist.map _)) once).mpr ?_
    intro segmentId
    constructor
    · intro listed
      obtain ⟨seg, found, rfl⟩ := List.mem_map.mp listed
      exact of_decide_eq_true (List.mem_filter.mp found).2
    · intro listed
      obtain ⟨seg, found, rfl⟩ := List.mem_map.mp (active segmentId listed)
      exact List.mem_map_of_mem (List.mem_filter.mpr ⟨found, decide_eq_true listed⟩)
  have same := names.flatMap_right contents
  rwa [List.flatMap_map] at same

end Events

/-- Commits of files that were put aside under names of their own, and
compactions; none is cut short. -/
def CatalogOp.Calm : CatalogOp → Prop
  | .stage path _ => Foreign path
  | .commit tempPath _ none => Foreign tempPath
  | .compact _ _ none => True
  | _ => False

/-- An open catalog between two calls. -/
structure Opened (disk : Disk Path) (limit : Nat) (catalog : Catalog) : Prop where
  opened : catalog.journal = ⟨some journalPath⟩
  journal : (disk journalPath).isSome
  sound : catalog.manifest.Sound
  next : catalog.manifest.nextSegmentId.toNat ≤ limit

section Sessions

variable {disk : Disk Path} {catalog : Catalog} {limit : Nat}

theorem InSession.isOpened {saved : Manifest} {history : List Attempt}
    (session : InSession disk saved history limit catalog) : Opened disk limit catalog := by
  obtain ⟨creationTs, journal⟩ := session.journal
  exact ⟨session.opened, by rw [journal]; rfl, session.sound, session.nextSegment⟩

theorem isSome_log {txId : UInt64} (ops : List JournalOp) (there : (disk journalPath).isSome) :
    (applyAll disk (done (logEffects txId ops)) journalPath).isSome := by
  obtain ⟨file, found⟩ := Option.isSome_iff_exists.mp there
  rw [log_journal found]
  rfl

theorem isSome_install {source : Path} {txId segmentId : UInt64} {op : JournalOp}
    {manifest : Manifest} {ids : List UInt64}
    (there : (disk journalPath).isSome) (foreign : Foreign source) (found : (disk source).isSome) :
    (applyAll disk (done (installEffects txId op source segmentId manifest ids))
      journalPath).isSome := by
  obtain ⟨file, journal⟩ := Option.isSome_iff_exists.mp there
  obtain ⟨contents, moved⟩ := Option.isSome_iff_exists.mp found
  have observed := (@install_observed disk file contents txId segmentId op source manifest ids
    (done (installEffects txId op source segmentId manifest ids)).length journal foreign
      fun _ => moved).1
  rw [List.take_length] at observed
  rw [observed]
  rfl

theorem compact_disk (disk : Disk Path) (manifest : Manifest) (ids : List UInt64)
    (file : Bytes) (entry : SegmentMeta) :
    applyAll disk (done (compactEffects manifest ids file entry)) =
      applyAll (Function.update disk (compactTmpPath manifest.nextSegmentId) (some file))
        (done (installEffects manifest.nextTxId (.compactSegments ids [entry])
          (compactTmpPath manifest.nextSegmentId)
          manifest.nextSegmentId (installManifest manifest ids entry) ids)) := by
  rw [compactEffects, done, List.map_cons, applyAll_cons]
  rfl

theorem Opened.commit (opened : Opened disk limit catalog) {tempPath : Path}
    (foreign : Foreign tempPath)
    (entry : SegmentMeta) (room : limit + 1 < 2 ^ 64) {left : Catalog}
    (survives : survivor ((commitSegment tempPath entry).exec [] disk catalog) = some left) :
    Opened ((commitSegment tempPath entry).exec [] disk catalog).disk (limit + 1) left := by
  have next := opened.next
  have succ : (catalog.manifest.nextSegmentId + 1).toNat =
      catalog.manifest.nextSegmentId.toNat + 1 := toNat_succ (by omega)
  have installs := commit_installs foreign disk catalog entry
  by_cases there : (disk tempPath).isSome
  · rw [commitSegment_exec opened.opened foreign.journal there] at survives ⊢
    cases survives
    dsimp only [commitEffects]
    refine ⟨opened.opened, isSome_install opened.journal foreign there,
      installManifest_sound opened.sound (by omega) installs.named installs.id [], ?_⟩
    have nextIs := (installManifest_next catalog.manifest [] (commitEntry catalog.manifest entry)).1
    dsimp only [commitManifest]
    rw [nextIs, succ]
    omega
  · rw [commitSegment_absent opened.opened foreign.journal
      (Option.not_isSome_iff_eq_none.mp there)] at survives ⊢
    cases survives
    refine ⟨opened.opened, isSome_log _ opened.journal, takeIds_sound opened.sound (by omega), ?_⟩
    dsimp only [takeIds]
    rw [succ]
    omega

theorem Opened.compact (opened : Opened disk limit catalog) (host : Host) (ids : List UInt64)
    (room : limit + 1 < 2 ^ 64)
    {left : Catalog}
    (survives : survivor ((compactSegments host ids).exec [] disk catalog) = some left) :
    Opened ((compactSegments host ids).exec [] disk catalog).disk (limit + 1) left := by
  have next := opened.next
  have succ : (catalog.manifest.nextSegmentId + 1).toNat =
      catalog.manifest.nextSegmentId.toNat + 1 := toNat_succ (by omega)
  have foreign := foreign_of_isTemporary (isTemporary_compactTmpPath catalog.manifest.nextSegmentId)
  rcases compactSegments_cases host disk ids opened.opened with
    ⟨events, file, entry, compacts⟩ | quiet
  · rw [compactSegments_exec opened.opened compacts] at survives ⊢
    cases survives
    dsimp only
    obtain ⟨reader, -, same⟩ := compacts.opened
    have named : Named entry := by rw [same]; rfl
    have id : entry.segmentId = catalog.manifest.nextSegmentId := by rw [same]; rfl
    have nextIs := (installManifest_next catalog.manifest ids entry).1
    refine ⟨opened.opened, ?_, installManifest_sound opened.sound (by omega) named id ids, ?_⟩
    · rw [compact_disk]
      refine isSome_install ?_ foreign ?_
      · rw [Function.update_of_ne foreign.journal.symm]
        exact opened.journal
      · rw [Function.update_self]
        rfl
    · dsimp only
      rw [nextIs, succ]
      omega
  · obtain ⟨effects, performed, shape⟩ := quiet.performed
    have journal : ((compactSegments host ids).exec [] disk catalog).disk journalPath =
        disk journalPath := by
      rw [Prog.exec_disk, performed]
      rcases shape with rfl | ⟨file, rfl⟩ | rfl
      · rfl
      · exact Function.update_of_ne foreign.journal.symm (some file) disk
      · exact Function.update_of_ne foreign.journal.symm none disk
    rw [survivor_state survives]
    have journalled : (((compactSegments host ids).exec [] disk catalog).disk
        journalPath).isSome := by
      rw [journal]
      exact opened.journal
    rcases quiet.state with same | same
    · rw [same]
      exact ⟨opened.opened, journalled, opened.sound, by omega⟩
    · rw [same]
      have below : catalog.manifest.nextSegmentId.toNat ≤
          (takeSegmentId catalog.manifest).nextSegmentId.toNat := by
        rw [takeSegmentId, succ]
        omega
      refine ⟨opened.opened, journalled, opened.sound.of_ids rfl opened.sound.named below, ?_⟩
      rw [takeSegmentId, succ]
      omega

theorem opened_step {world : World} {op : CatalogOp} (calm : op.Calm) (room : limit + 1 < 2 ^ 64)
    (held : ∀ catalog, world.session = some catalog → Opened world.disk limit catalog)
    {left : Catalog}
    (found : (world.step op).session = some left) :
    Opened (world.step op).disk (limit + 1) left := by
  cases op with
  | stage path file =>
    have before := held left found
    refine ⟨before.opened, ?_, before.sound, before.next.trans (Nat.le_succ limit)⟩
    change (Function.update world.disk path (some file) journalPath).isSome
    rw [Function.update_of_ne calm.journal.symm]
    exact before.journal
  | leave => cases found
  | openCatalog now cut => exact calm.elim
  | commit tempPath entry cut =>
    cases cut with
    | some cut => exact calm.elim
    | none =>
      unfold World.step at found ⊢
      cases session : world.session with
      | none =>
        rw [session] at found
        dsimp only at found
        rw [session] at found
        cases found
      | some catalog =>
        rw [session] at found
        exact (held catalog session).commit calm entry room found
  | compact host ids cut =>
    cases cut with
    | some cut => exact calm.elim
    | none =>
      unfold World.step at found ⊢
      cases session : world.session with
      | none =>
        rw [session] at found
        dsimp only at found
        rw [session] at found
        cases found
      | some catalog =>
        rw [session] at found
        exact (held catalog session).compact host ids room found

theorem opened_run {world : World} (ops : List CatalogOp) (calm : ∀ op ∈ ops, op.Calm)
    (room : limit + ops.length < 2 ^ 64)
    (held : ∀ catalog, world.session = some catalog → Opened world.disk limit catalog)
    {left : Catalog}
    (found : (world.run ops).session = some left) :
    Opened (world.run ops).disk (limit + ops.length) left := by
  induction ops generalizing world limit with
  | nil => exact held left found
  | cons op rest ih =>
    rw [List.length_cons] at room
    have after :=
      @ih (limit + 1) (world.step op) (fun other listed => calm other (by simp [listed])) (by omega)
      (fun catalog session => opened_step (calm op (by simp)) (by omega) held session) found
    rwa [Nat.add_assoc, Nat.add_comm 1] at after

end Sessions

section Compacted

variable {disk : Disk Path} {catalog : Catalog} {limit : Nat}
  {contents : UInt64 → List CanonicalEvent}
  {host : Host} {ids : List UInt64}

/-- The files of the active segments are as their writers left them. -/
def Stocked (disk : Disk Path) (manifest : Manifest)
    (contents : UInt64 → List CanonicalEvent) : Prop :=
  ∀ seg ∈ manifest.activeSegments, ∃ file, disk (.root seg.filename) = some file ∧
    Written file (contents seg.segmentId)

theorem Stocked.holding {manifest : Manifest} (stocked : Stocked disk manifest contents) :
    Holding disk manifest contents := by
  intro seg listed
  obtain ⟨file, there, written⟩ := stocked seg listed
  exact segmentEvents_of_reads there written.readable

theorem compact_segments (there : (disk journalPath).isSome) (manifest : Manifest)
    (ids : List UInt64) (file : Bytes)
    (entry : SegmentMeta) (asked : UInt64) :
    applyAll disk (done (compactEffects manifest ids file entry)) (segmentPath asked) =
      if asked ∈ ids then none else if asked = manifest.nextSegmentId then
        some file else disk (segmentPath asked) := by
  have foreign := foreign_of_isTemporary (isTemporary_compactTmpPath manifest.nextSegmentId)
  obtain ⟨journal, found⟩ := Option.isSome_iff_exists.mp there
  have observed :=
    (@install_observed
    (Function.update disk (compactTmpPath manifest.nextSegmentId) (some file)) journal
    file manifest.nextTxId manifest.nextSegmentId (.compactSegments ids [entry])
      (compactTmpPath manifest.nextSegmentId)
    (installManifest manifest ids entry) ids (6 + ids.length)
    (by rw [Function.update_of_ne foreign.journal.symm]; exact found) foreign fun _ =>
      Function.update_self ..).2.2 asked
  rw [List.take_of_length_le (by simp [done, installEffects, transactionEffects, logEffects,
    saveEffects, removeEffects]; omega),
    if_neg (by omega), Nat.add_sub_cancel_left, List.take_length,
      Function.update_of_ne (foreign.segment asked).symm] at observed
  rw [compact_disk, observed]

/-- What becomes of the active segments: `entry` takes the place of the listed ones. -/
structure Compacted (disk after : Disk Path) (manifest later : Manifest)
    (contents : UInt64 → List CanonicalEvent)
    (ids : List UInt64) (entry : SegmentMeta) (events : List CanonicalEvent) : Prop where
  permuted : events.Perm (ids.flatMap contents)
  sorted : events.Pairwise fun a b => eventLess b a = false
  stored : ∃ file, after (.root entry.filename) = some file ∧ Written file events
  active : later.activeSegments = manifest.activeSegments.filter (·.segmentId ∉ ids) ++ [entry]
  files : ∀ seg ∈ manifest.activeSegments, seg.segmentId ∉ ids →
    after (.root seg.filename) = disk (.root seg.filename)
  preserved : ∃ old new, activeEvents disk manifest = .ok old ∧
    activeEvents after later = .ok new ∧ new.Perm old

theorem flatMap_split (segments : List SegmentMeta) (ids : List UInt64)
    (contents : UInt64 → List CanonicalEvent) :
    ((segments.filter (·.segmentId ∉ ids)).flatMap (fun seg => contents seg.segmentId) ++
      (segments.filter (·.segmentId ∈ ids)).flatMap fun seg => contents seg.segmentId).Perm
      (segments.flatMap fun seg => contents seg.segmentId) := by
  have parts :=
    (List.filter_append_perm (fun seg : SegmentMeta => decide (seg.segmentId ∈ ids))
    segments).symm.flatMap_right
    fun seg => contents seg.segmentId
  rw [List.flatMap_append] at parts
  refine List.perm_append_comm.trans (List.Perm.trans ?_ parts.symm)
  simp only [decide_not]
  exact .refl _

theorem compact_preserves (opened : Opened disk limit catalog) (room : limit + 1 < 2 ^ 64)
    (stocked : Stocked disk catalog.manifest contents) (listed : ids ≠ []) (once : ids.Nodup)
    (active : ∀ segmentId ∈ ids, segmentId ∈ catalog.activeSegments.map (·.segmentId))
    (rows : (ids.flatMap contents).length ≤ SegmentConfig.maxRowsPerSegment) {created : List UInt64}
    (returned : ((compactSegments host ids).exec [] disk catalog).outcome = .ok created) :
    ∃ entry events, created = [entry.segmentId] ∧
      Compacted disk ((compactSegments host ids).exec [] disk catalog).disk
      catalog.manifest ((compactSegments host ids).exec [] disk catalog).state.manifest
        contents ids entry events := by
  have sound := opened.sound
  have next := opened.next
  have holding := stocked.holding
  have collected := collectEvents_eq sound.distinct holding active
  have some : ids.flatMap contents ≠ [] := by
    intro none
    obtain ⟨segmentId, among⟩ := List.exists_mem_of_ne_nil ids listed
    obtain ⟨seg, found, rfl⟩ := List.mem_map.mp (active segmentId among)
    obtain ⟨file, -, written⟩ := stocked seg found
    exact written.nonempty (List.flatMap_eq_nil_iff.mp none _ among)
  rcases compactSegments_cases host disk ids opened.opened with
    ⟨events, file, entry, compacts⟩ | quiet
  · obtain rfl : ids.flatMap contents = events :=
      Except.ok.inj (collected.symm.trans compacts.collected)
    rw [compactSegments_exec opened.opened compacts] at returned ⊢
    cases returned
    dsimp only
    obtain ⟨fresh, writer, made, added, written⟩ := compacts.written
    obtain ⟨reader, -, same⟩ := compacts.opened
    have id : entry.segmentId = catalog.manifest.nextSegmentId := by rw [same]; rfl
    have name : (Path.root entry.filename) = segmentPath catalog.manifest.nextSegmentId := by
      rw [same]; rfl
    have lives : entry.active = true := by rw [same]; rfl
    have permuted := host.order.perm (ids.flatMap contents)
    have readable : SegmentReader.Reads file (host.order.sort (ids.flatMap contents)) := by
      refine SegmentReader.writeToFile_reads (holds_of_addEvents made added) ?_ ?_ written
      · exact fun none => some (List.perm_nil.mp (none ▸ permuted.symm))
      · rwa [permuted.length_eq]
    have segments := compact_segments opened.journal catalog.manifest ids file entry
    generalize applyAll disk (done (compactEffects catalog.manifest ids file entry)) =
      after at segments ⊢
    -- The new id is none of the active ones, so it is not listed.
    have fresh' : catalog.manifest.nextSegmentId ∉ ids := by
      intro among
      obtain ⟨seg, found, same⟩ := List.mem_map.mp (active _ among)
      have below := sound.below seg (mem_activeSegments.mp found).1
      rw [same] at below
      exact absurd below (lt_irrefl _)
    have stored : after (.root entry.filename) = Option.some file := by
      rw [name, segments, if_neg fresh', if_pos rfl]
    have activeLater :=
      active_installManifest sound (show catalog.manifest.nextSegmentId.toNat + 1 <
      2 ^ 64 by omega) id lives ids
    have files : ∀ seg ∈ catalog.manifest.activeSegments, seg.segmentId ∉ ids →
        after (.root seg.filename) = disk (.root seg.filename) := by
      intro seg found apart
      have inside := (mem_activeSegments.mp found).1
      have path : Path.root seg.filename = segmentPath seg.segmentId :=
        congrArg Path.root (sound.named seg inside)
      have below := sound.below seg inside
      rw [path, segments, if_neg apart, if_neg fun same => absurd (same ▸ below) (lt_irrefl _)]
    refine ⟨entry, _, by rw [id], permuted, host.order.sorted _, ⟨file, stored,
      ⟨_, _, fresh, writer, host.memory, made, added,
      written⟩, readable⟩, activeLater, files, ?_⟩
    refine ⟨_, (catalog.manifest.activeSegments.filter (·.segmentId ∉ ids)).flatMap
      (fun seg => contents seg.segmentId) ++
      host.order.sort (ids.flatMap contents), activeEvents_eq holding, ?_, ?_⟩
    · rw [activeEvents, activeLater]
      refine segmentsEvents_append (segmentsEvents_eq fun seg among => ?_) ?_
      · obtain ⟨found, apart⟩ := List.mem_filter.mp among
        rw [segmentEvents_congr (files seg found (of_decide_eq_true apart)), holding seg found]
      · rw [segmentsEvents, segmentEvents_of_reads stored readable, ok_bind, segmentsEvents,
          ok_bind, List.append_nil]
        rfl
    · have listedSame : (ids.flatMap contents).Perm
          ((catalog.manifest.activeSegments.filter (·.segmentId ∈ ids)).flatMap
          fun seg => contents seg.segmentId) := (listed_perm sound.distinct once active).symm
      exact ((permuted.trans listedSame).append_left _).trans
        (flatMap_split catalog.manifest.activeSegments ids contents)
  · rcases (quiet.returned created returned).2 with none | empty
    · exact absurd none listed
    · rw [collected] at empty
      exact absurd (Except.ok.inj empty) some

/-- After any run of commits and compactions, behind any careful run that opened the catalog. -/
theorem compaction_preserves {start : World} (blank : start.Blank) {earlier later : List CatalogOp}
    (careful : ∀ op ∈ earlier, op.Careful) (calm : ∀ op ∈ later, op.Calm)
    (few : earlier.length + later.length + 2 < 2 ^ 64)
    (found : ((start.run earlier).run later).session = some catalog)
    (stocked : Stocked ((start.run earlier).run later).disk catalog.manifest contents)
    (listed : ids ≠ [])
    (once : ids.Nodup)
    (active : ∀ segmentId ∈ ids, segmentId ∈ catalog.activeSegments.map (·.segmentId))
    (rows : (ids.flatMap contents).length ≤ SegmentConfig.maxRowsPerSegment) {created : List UInt64}
    (returned : ((compactSegments host ids).exec []
      ((start.run earlier).run later).disk catalog).outcome = .ok created) :
    ∃ entry events, created = [entry.segmentId] ∧ Compacted ((start.run earlier).run later).disk
      ((compactSegments host ids).exec []
        ((start.run earlier).run later).disk catalog).disk catalog.manifest
      ((compactSegments host ids).exec []
        ((start.run earlier).run later).disk catalog).state.manifest contents ids entry
      events := by
  obtain ⟨saved, history, reached, -⟩ := (blank_reached blank).run earlier careful (by omega)
  rw [Nat.zero_add] at reached
  have opened := opened_run later calm (by omega)
    (fun catalog session => (reached.invariant.session catalog session).isOpened)
    found
  exact compact_preserves opened (by omega) stocked listed once active rows returned

end Compacted

-- A quote is committed to a new catalog, and its segment compacted.

theorem quoteCommitted_session (file : Bytes) :
    (quoteCommitted file).session = some ⟨commitManifest {} {}, ⟨some journalPath⟩⟩ := by
  unfold quoteCommitted World.step
  rw [quoteStaged_session]
  dsimp only
  rw [commitSegment_exec rfl quotePath_foreign.journal (by rw [quoteStaged_file]; rfl)]
  rfl

theorem quote_stocked : ∃ file, Written file [quoteEvent] ∧
    Stocked (quoteCommitted file).disk (commitManifest {} {}) fun _ => [quoteEvent] := by
  obtain ⟨fresh, writer, file, created, added, written⟩ := SegmentReader.quote_written
  have readable := SegmentReader.writeToFile_reads (holds_of_addEvents created added)
    (by decide) (by decide) written
  have whole : Written file [quoteEvent] :=
    ⟨⟨1, 16, fresh, writer, zeroed, created, added, written⟩, readable⟩
  refine ⟨file, whole, fun seg listed => ?_⟩
  obtain rfl : seg = commitEntry {} {} := List.mem_singleton.mp listed
  refine ⟨file, ?_, whole⟩
  have there := quoteCommitted_segments file 1
  rwa [if_pos rfl] at there

theorem compaction_preserves_quote : ∃ file entry events,
    Compacted (quoteCommitted file).disk ((compactSegments plainHost [1]).exec []
      (quoteCommitted file).disk
        ⟨commitManifest {} {}, ⟨some journalPath⟩⟩).disk (commitManifest {} {})
      ((compactSegments plainHost [1]).exec [] (quoteCommitted file).disk
        ⟨commitManifest {} {}, ⟨some journalPath⟩⟩).state.manifest (fun _ => [quoteEvent])
        [1] entry events := by
  obtain ⟨file, written, stocked⟩ := quote_stocked
  have there := quoteCommitted_segments file 1
  rw [if_pos rfl] at there
  obtain ⟨compacted, made, compacts⟩ :=
    @quote_compacts (quoteCommitted file).disk (commitManifest {} {}) 1
    (commitEntry {} {}) file rfl there written.readable
  have careful : ∀ op ∈ [CatalogOp.openCatalog 0 none, .stage quotePath file], op.Careful :=
    fun op listed => (quoteStaged_careful file op listed).1
  have calm : ∀ op ∈ [CatalogOp.commit quotePath {} none], op.Calm := by
    intro op listed
    rw [List.mem_singleton.mp listed]
    exact quotePath_foreign
  have returned : ((compactSegments plainHost [1]).exec [] (quoteCommitted file).disk
      ⟨commitManifest {} {}, ⟨some journalPath⟩⟩).outcome = .ok [2] := by
    rw [compactSegments_exec rfl compacts]
    rfl
  have active : ∀ segmentId ∈ [(1 : UInt64)],
      segmentId ∈ (commitManifest {} {}).activeSegments.map (·.segmentId) := by
    intro segmentId listed
    rw [List.mem_singleton.mp listed]
    exact List.mem_singleton.mpr rfl
  obtain ⟨entry, events, -, result⟩ :=
    @compaction_preserves ⟨commitManifest {} {}, ⟨some journalPath⟩⟩
    (fun _ => [quoteEvent]) plainHost [1] blankWorld blankWorld_blank
      [.openCatalog 0 none, .stage quotePath file]
    [.commit quotePath {} none] careful calm (by simp)
      (quoteCommitted_session file) stocked (List.cons_ne_nil 1 [])
    (List.nodup_singleton 1) active (by decide) [2] returned
  exact ⟨file, entry, events, result⟩

end VectorTick
