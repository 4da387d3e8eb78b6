import VectorTick.Storage.CatalogSteps
import VectorTick.Storage.SegmentRoundTrip

/-! Acknowledged commits survive.

Once `commit_segment` has returned, the segment belongs to a committed attempt of the history and
its file is in place. Later commits take other ids and delete nothing, so every later recovery
finds the segment again.
-/

set_option autoImplicit false

namespace VectorTick

open Foundation Journal Catalog Manifest Vts1 SegmentWriter

/-- The segment of an attempt as it was committed. -/
structure Stored (disk : Disk Path) (history : List Attempt) (attempt : Attempt)
    (file : Bytes) : Prop where
  owner : Owner history attempt
  contents : disk (segmentPath attempt.entry.segmentId) = some file
  nothingRemoved : ∀ other ∈ history, removes other.op = []

/-- Any operation but a compaction. -/
def CatalogOp.Plain (op : CatalogOp) : Prop := ∀ host ids cut, op ≠ .compact host ids cut

section Plain

variable {world : World} {saved : Manifest} {history : List Attempt} {attempt : Attempt}
  {file : Bytes} {count : Nat}

theorem removed_of_plain {op : CatalogOp} (plain : op.Plain) : op.removed = [] := by
  cases op with
  | compact host ids cut => exact absurd rfl (plain host ids cut)
  | _ => rfl

theorem removes_of_plain {op : CatalogOp} (plain : op.Plain) (made : attempt.From op) :
    removes attempt.op = [] := by
  cases op with
  | compact host ids cut => exact absurd rfl (plain host ids cut)
  | commit tempPath entry cut =>
    obtain ⟨added, same⟩ := made
    rw [same]
    rfl
  | stage path file => exact made.elim
  | leave => exact made.elim
  | openCatalog now cut => exact made.elim

theorem stored_step (reached : Reached world saved history count)
    (stored : Stored world.disk history attempt file)
    {op : CatalogOp} (careful : op.Careful) (plain : op.Plain) (few : count + 1 < 2 ^ 64) :
    ∃ saved' longer, Reached (world.step op) saved' longer (count + 1) ∧
      Stored (world.step op).disk longer attempt file := by
  obtain ⟨saved', longer, kept, grows, keeps⟩ := reached.step careful few
  have present : (world.disk (segmentPath attempt.entry.segmentId)).isSome := by
    rw [stored.contents]
    rfl
  have contents : (world.step op).disk (segmentPath attempt.entry.segmentId) = some file := by
    rw [keeps _ present (by rw [removed_of_plain plain]; exact List.not_mem_nil), stored.contents]
  refine ⟨saved', longer, kept, ?_⟩
  rcases grows with rfl | ⟨added, rfl, made, fresh⟩
  · exact ⟨stored.owner, contents, stored.nothingRemoved⟩
  · refine ⟨Recorded.owner_append stored.owner (fresh _ present), contents, fun other listed => ?_⟩
    rcases List.mem_append.mp listed with old | new
    · exact stored.nothingRemoved other old
    · rw [List.mem_singleton.mp new]
      exact removes_of_plain plain made

theorem stored_run (ops : List CatalogOp) (reached : Reached world saved history count)
    (stored : Stored world.disk history attempt file) (careful : ∀ op ∈ ops, op.Careful)
    (plain : ∀ op ∈ ops, op.Plain) (few : count + ops.length < 2 ^ 64) :
    ∃ saved' longer, Reached (world.run ops) saved' longer (count + ops.length) ∧
      Stored (world.run ops).disk longer attempt file := by
  induction ops generalizing world saved history count with
  | nil => exact ⟨saved, history, reached, stored⟩
  | cons op rest ih =>
    rw [List.length_cons] at few
    obtain ⟨middle, longer, kept, still⟩ :=
      stored_step reached stored (careful op (by simp)) (plain op (by simp))
      (by omega)
    have final := ih kept still (fun other listed => careful other (by simp [listed]))
      (fun other listed => plain other (by simp [listed])) (by omega)
    rw [List.length_cons, Nat.add_comm rest.length 1, ← Nat.add_assoc]
    exact final

section Commit

variable {catalog : Catalog} {tempPath : Path}

theorem step_commit {limit : Nat} (session : InSession world.disk saved history limit catalog)
    (found : world.session = some catalog) (foreign : Foreign tempPath)
    (there : world.disk tempPath = some file)
    (entry : SegmentMeta) :
    world.step (.commit tempPath entry none) = world.afterCall (installRun world.disk catalog []
      (commitEntry catalog.manifest entry) (commitEffects catalog.manifest tempPath entry)
      (segmentPath catalog.manifest.nextSegmentId)) none := by
  unfold World.step
  rw [found]
  dsimp only
  rw [commitSegment_exec session.opened foreign.journal (by rw [there]; rfl)]
  rfl

/-- The segment files after a commit. -/
theorem commit_segments {limit : Nat} (session : InSession world.disk saved history limit catalog)
    (found : world.session = some catalog) (foreign : Foreign tempPath)
    (there : world.disk tempPath = some file)
    (entry : SegmentMeta) (segmentId : UInt64) :
    (world.step (.commit tempPath entry none)).disk (segmentPath segmentId) =
      if segmentId = catalog.manifest.nextSegmentId then
        some file else world.disk (segmentPath segmentId) := by
  obtain ⟨creationTs, journal⟩ := session.journal
  have observed :=
    @install_observed world.disk _ file catalog.manifest.nextTxId catalog.manifest.nextSegmentId
    (.addSegment (commitEntry catalog.manifest entry)) tempPath
      (commitManifest catalog.manifest entry) [] 6 journal
    foreign fun _ => there
  have contents := observed.2.2 segmentId
  rw [if_neg (by omega), if_neg (by simp)] at contents
  rw [step_commit session found foreign there]
  exact contents

/-- A commit on an open catalog, with the attempt it adds. -/
theorem commit_reached (reached : Reached world saved history count)
    (found : world.session = some catalog)
    (foreign : Foreign tempPath) (there : world.disk tempPath = some file)
    (few : count + 1 < 2 ^ 64)
    (entry : SegmentMeta) :
    ∃ attempt : Attempt, attempt.txId = catalog.manifest.nextTxId ∧
      attempt.entry = committedMeta entry catalog.manifest.nextSegmentId ∧
        attempt.stage = .committed ∧
      removes attempt.op = [] ∧
      Reached (world.step (.commit tempPath entry none))
      (commitManifest catalog.manifest entry) (history ++ [attempt])
        (count + 1) ∧
      (world.step (.commit tempPath entry none)).session =
        some { catalog with manifest := commitManifest catalog.manifest entry } := by
  have session := reached.invariant.session catalog found
  have started := reached.started (by rw [found]; rfl)
  have performs := commit_performs foreign there catalog entry
  have finished := install_finished reached.invariant session performs (by omega)
    (segmentPath catalog.manifest.nextSegmentId)
  rw [← step_commit session found foreign there] at finished
  refine ⟨performs.installs.attempt .committed, rfl, rfl, rfl, rfl,
    ⟨finished.widen (by omega) (by omega), fun _ => by
    omega⟩, ?_⟩
  rw [step_commit session found foreign there]
  rfl

/-- A commit of a file that is there is stored when it returns. -/
theorem stored_commit (reached : Reached world saved history count)
    (nothingRemoved : ∀ other ∈ history, removes other.op = [])
    (found : world.session = some catalog)
    (foreign : Foreign tempPath) (there : world.disk tempPath = some file)
    (few : count + 1 < 2 ^ 64)
    (entry : SegmentMeta) :
    ∃ saved' longer, ∃ attempt : Attempt, attempt.entry =
      committedMeta entry catalog.manifest.nextSegmentId ∧
      Reached (world.step (.commit tempPath entry none)) saved' longer (count + 1) ∧
      Stored (world.step (.commit tempPath entry none)).disk longer attempt file := by
  have session := reached.invariant.session catalog found
  obtain ⟨attempt, -, same, committed, removed, after, -⟩ :=
    commit_reached reached found foreign there few entry
  have id : attempt.entry.segmentId = catalog.manifest.nextSegmentId := by
    rw [same]
    rfl
  have contents := commit_segments session found foreign there entry attempt.entry.segmentId
  rw [if_pos id] at contents
  refine ⟨_, _, attempt, same, after, ⟨owner_last committed, contents, fun other listed => ?_⟩⟩
  rcases List.mem_append.mp listed with old | new
  · exact nothingRemoved other old
  · rw [List.mem_singleton.mp new]
    exact removed

end Commit

end Plain

/-- A recovery that returns has computed a manifest, and touches no segment file. -/
theorem recover_returned {disk : Disk Path}
    (returned : (recover.exec [] disk {}).outcome = .ok ()) :
    ∃ manifest, recovered (swept disk) {} = .ok manifest ∧
      (recover.exec [] disk {}).state.manifest = manifest ∧
      ∀ segmentId, (recover.exec [] disk {}).disk (segmentPath segmentId) =
        disk (segmentPath segmentId) := by
  cases result : recovered (swept disk) {} with
  | error stop =>
    rw [recover_stops {} result] at returned
    cases returned
  | ok manifest =>
    rw [recover_exec {} result]
    exact ⟨manifest, rfl, rfl, (save_untouched manifest disk).2⟩

/-- An acknowledged commit is active with its metadata and its file, after any further run without
compaction and any recovery that succeeds. -/
theorem acknowledged_commit_durable {start : World} (blank : start.Blank)
    {earlier later : List CatalogOp}
    (careful : ∀ op ∈ earlier ++ later, op.Careful ∧ op.Plain)
    (few : earlier.length + 1 + later.length < 2 ^ 64)
    {catalog : Catalog} (found : (start.run earlier).session = some catalog)
    {tempPath path : Path} {file : Bytes}
    (foreign : Foreign tempPath) (there : (start.run earlier).disk tempPath = some file)
    (valid : fileValid (some file) = true) {entry : SegmentMeta}
    (acknowledged : ((commitSegment tempPath entry).exec []
      (start.run earlier).disk catalog).outcome = .ok path)
    (returned : (recover.exec []
      (((start.run earlier).step (.commit tempPath entry none)).run later).disk
      {}).outcome = .ok ()) :
    committedMeta entry catalog.manifest.nextSegmentId ∈
        (recover.exec [] (((start.run earlier).step (.commit tempPath entry none)).run later).disk
          {}).state.activeSegments ∧
      (recover.exec []
        (((start.run earlier).step (.commit tempPath entry none)).run later).disk {}).disk path =
        some file := by
  obtain ⟨saved, history, before, origin⟩ := (blank_reached blank).run earlier
    (fun op listed => (careful op (by simp [listed])).1) (by omega)
  rw [List.nil_append, Nat.zero_add] at before
  have nothingRemoved : ∀ other ∈ history, removes other.op = [] := by
    intro other listed
    obtain ⟨op, among, made⟩ := origin other listed
    exact removes_of_plain (careful op (by simp [among])).2 made
  obtain ⟨middle, longer, attempt, same, committed, stored⟩ :=
    stored_commit before nothingRemoved found foreign there
    (by omega) entry
  obtain ⟨final, all, reached, kept⟩ := stored_run later committed stored
    (fun op listed => (careful op (by simp [listed])).1)
      (fun op listed => (careful op (by simp [listed])).2) (by omega)
  generalize ((start.run earlier).step (.commit tempPath entry none)).run later =
    world at returned reached kept ⊢
  obtain ⟨manifest, result, state, segments⟩ := recover_returned returned
  have recorded :=
    reached.invariant.recorded.untouched
    (untouched_swept world.disk) le_rfl reached.invariant.recorded.small
  have id : attempt.entry.segmentId = catalog.manifest.nextSegmentId := by rw [same]; rfl
  have final' : path = segmentPath catalog.manifest.nextSegmentId := by
    have session := before.invariant.session catalog found
    rw [commitSegment_exec session.opened foreign.journal (by rw [there]; rfl)] at acknowledged
    exact (Except.ok.inj acknowledged).symm
  constructor
  · rw [Catalog.activeSegments, state, ← same, recorded.mem_recovered result]
    refine ⟨attempt, kept.owner, rfl, ?_, ?_⟩
    · rw [(untouched_swept world.disk).segments, kept.contents]
      exact valid
    · rintro ⟨remover, listed, -, removal, -⟩
      have none := kept.nothingRemoved remover listed
      unfold Attempt.removed at removal
      split at removal
      · cases removal
      · rw [none] at removal
        cases removal
  · rw [final', ← id, segments, kept.contents]

-- A quote committed to a new catalog, which is left and opened again.

theorem segmentValid_of_reads {file : Bytes} {events : List CanonicalEvent}
    (reads : SegmentReader.Reads file events) :
    segmentValid (some file) = .ok true := by
  obtain ⟨reader, opened, validated, -⟩ := reads
  unfold segmentValid
  rw [opened, show answer (Except.ok reader : Except Stop SegmentReader) =
    .ok (some reader) from rfl, ok_bind]
  dsimp only
  rw [validated]
  rfl

def blankWorld : World := ⟨fun _ => none, none, []⟩

theorem blankWorld_blank : blankWorld.Blank := ⟨rfl, rfl, fun _ => rfl, rfl, rfl⟩

def quotePath : Path := .other (nameBytes "quote.vts")

theorem quotePath_foreign : Foreign quotePath where
  manifest := by decide
  journal := by decide
  segment := fun segmentId same => by cases same

def quoteStaged (file : Bytes) : World :=
  blankWorld.run [.openCatalog 0 none, .stage quotePath file]

theorem quoteStaged_session (file : Bytes) :
    (quoteStaged file).session = some ⟨{}, ⟨some journalPath⟩⟩ := by
  have nothing : recovered (swept blankWorld.disk) {} = .ok {} := rfl
  change (blankWorld.afterOpen ((Catalog.openCatalog 0).exec [] blankWorld.disk {}) none).session =
    _
  rw [openCatalog_exec 0 nothing]
  rfl

theorem quoteStaged_careful (file : Bytes) :
    ∀ op ∈ [CatalogOp.openCatalog 0 none, .stage quotePath file], op.Careful ∧ op.Plain := by
  intro op listed
  simp only [List.mem_cons, List.not_mem_nil, or_false] at listed
  rcases listed with rfl | rfl
  · exact ⟨fun _ impossible => (nomatch impossible), fun _ _ _ impossible => (nomatch impossible)⟩
  · exact ⟨quotePath_foreign, fun _ _ _ impossible => (nomatch impossible)⟩

theorem quoteStaged_reached (file : Bytes) : ∃ saved, Reached (quoteStaged file) saved [] 2 := by
  obtain ⟨saved, history, reached, origin⟩ := (blank_reached blankWorld_blank).run
    [.openCatalog 0 none, .stage quotePath file]
      (fun op listed => (quoteStaged_careful file op listed).1)
    (by simp)
  have empty : history = [] := by
    refine List.eq_nil_iff_forall_not_mem.mpr fun attempt listed => ?_
    obtain ⟨op, among, made⟩ := origin attempt listed
    simp only [List.mem_cons, List.not_mem_nil, or_false] at among
    rcases among with rfl | rfl <;> exact made
  subst empty
  exact ⟨saved, reached⟩

theorem quoteStaged_segments (file : Bytes) (segmentId : UInt64) :
    (quoteStaged file).disk (segmentPath segmentId) = none := by
  obtain ⟨saved, reached⟩ := quoteStaged_reached file
  by_contra present
  obtain ⟨attempt, owner, -⟩ :=
    reached.invariant.recorded.owners segmentId (Option.isSome_iff_ne_none.mpr present)
  cases (Recorded.mem_of_owner owner).1

theorem quoteStaged_file (file : Bytes) : (quoteStaged file).disk quotePath = some file := by
  change Function.update (blankWorld.step (.openCatalog 0 none)).disk quotePath
    (some file) quotePath = some file
  exact Function.update_self ..

def quoteCommitted (file : Bytes) : World := (quoteStaged file).step (.commit quotePath {} none)

theorem quoteCommitted_segments (file : Bytes) (segmentId : UInt64) :
    (quoteCommitted file).disk (segmentPath segmentId) = if segmentId = 1 then
      some file else none := by
  obtain ⟨saved, reached⟩ := quoteStaged_reached file
  unfold quoteCommitted
  rw [commit_segments (reached.invariant.session _ (quoteStaged_session file))
    (quoteStaged_session file)
    quotePath_foreign (quoteStaged_file file), quoteStaged_segments]

theorem quoteCommitted_recovers {file : Bytes} (reads : SegmentReader.Reads file [quoteEvent]) :
    (recover.exec [] (quoteCommitted file).disk {}).outcome = .ok () := by
  obtain ⟨saved, reached⟩ := quoteStaged_reached file
  obtain ⟨attempt, -, -, -, -, committed, -⟩ :=
    commit_reached reached (quoteStaged_session file) quotePath_foreign
    (quoteStaged_file file) (by decide) {}
  have recorded := committed.invariant.recorded
  obtain ⟨manifest, result⟩ :=
    (recorded.untouched (untouched_swept _) le_rfl recorded.small).recovers fun segmentId => by
    rw [(untouched_swept _).segments, ← quoteCommitted, quoteCommitted_segments]
    split
    · exact ⟨true, segmentValid_of_reads reads⟩
    · exact ⟨false, rfl⟩
  unfold quoteCommitted
  rw [recover_exec {} result]

theorem quote_readable : ∃ file, SegmentReader.Reads file [quoteEvent] := by
  obtain ⟨fresh, writer, file, created, added, written⟩ := SegmentReader.quote_written
  exact ⟨file, SegmentReader.writeToFile_reads (holds_of_addEvents created added)
    (by decide) (by decide) written⟩

theorem acknowledged_commit_durable_quote :
    ∃ file, SegmentReader.Reads file [quoteEvent] ∧
      let world := ((quoteStaged file).step (.commit quotePath {} none)).run [.leave]
      committedMeta {} 1 ∈ (recover.exec [] world.disk {}).state.activeSegments ∧
        (recover.exec [] world.disk {}).disk (segmentPath 1) = some file := by
  obtain ⟨file, reads⟩ := quote_readable
  have careful : ∀ op ∈ [CatalogOp.openCatalog 0 none, .stage quotePath file] ++ [.leave],
      op.Careful ∧ op.Plain := by
    intro op listed
    rcases List.mem_append.mp listed with front | last
    · exact quoteStaged_careful file op front
    · rw [List.mem_singleton.mp last]
      exact ⟨trivial, fun _ _ _ impossible => (nomatch impossible)⟩
  have there := quoteStaged_file file
  have returned : (recover.exec []
      (((quoteStaged file).step (.commit quotePath {} none)).run [.leave]).disk
      {}).outcome = .ok () := by
    change (recover.exec []
      ((quoteStaged file).step (.commit quotePath {} none)).disk {}).outcome = .ok ()
    exact quoteCommitted_recovers reads
  have acknowledged : ((commitSegment quotePath {}).exec [] (quoteStaged file).disk
      ⟨{}, ⟨some journalPath⟩⟩).outcome = .ok (segmentPath 1) := by
    rw [commitSegment_exec rfl quotePath_foreign.journal (by rw [there]; rfl)]
  have isValid : fileValid (some file) = true := by
    unfold fileValid
    rw [segmentValid_of_reads reads]
    rfl
  have few : [CatalogOp.openCatalog 0 none, .stage quotePath file].length + 1 +
      [CatalogOp.leave].length < 2 ^ 64 := by simp
  have durable :=
    @acknowledged_commit_durable blankWorld blankWorld_blank
    [.openCatalog 0 none, .stage quotePath file]
    [.leave] careful few ⟨{}, ⟨some journalPath⟩⟩
      (quoteStaged_session file) quotePath (segmentPath 1) file
    quotePath_foreign there isValid {} acknowledged returned
  refine ⟨file, reads, ?_⟩
  unfold quoteStaged
  dsimp only at durable ⊢
  exact durable

end VectorTick
