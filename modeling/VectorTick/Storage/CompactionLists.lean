import VectorTick.Storage.CompactionCrash

/-! Compactions of lists that hold more than distinct active segments. -/

set_option autoImplicit false

namespace VectorTick

open Foundation Journal Catalog Manifest SegmentWriter

def isActive (manifest : Manifest) (segmentId : UInt64) : Bool :=
  (manifest.findSegment segmentId).isSome

/-- The distinct active segments of a list. -/
def activeIds (manifest : Manifest) (ids : List UInt64) : List UInt64 :=
  (ids.filter (isActive manifest)).dedup

/-- The same events in some order, or no events to be read either time. -/
def SameEvents (first second : Except Stop (List CanonicalEvent)) : Prop :=
  (∃ one two, first = .ok one ∧ second = .ok two ∧ one.Perm two) ∨
    ∃ one two, first = .error one ∧ second = .error two

abbrev CompactRun : Type := Prog.Run Path Catalog Stop (List UInt64)

/-- Two compactions return, and leave the same active segments with the same events, at once and
behind a recovery by a fresh catalog. -/
structure Alike (first second : CompactRun) : Prop where
  returned : ∃ created, first.outcome = .ok created ∧ second.outcome = .ok created
  active : first.state.activeSegments = second.state.activeSegments
  events : SameEvents (activeEvents first.disk first.state.manifest)
    (activeEvents second.disk second.state.manifest)
  recovered : (freshRecovery first.disk).outcome = .ok () →
    (freshRecovery second.disk).outcome = .ok () →
    ((freshRecovery first.disk).state.activeSegments).Perm
      (freshRecovery second.disk).state.activeSegments ∧
      SameEvents
        (activeEvents (freshRecovery first.disk).disk (freshRecovery first.disk).state.manifest)
        (activeEvents (freshRecovery second.disk).disk (freshRecovery second.disk).state.manifest)

/-- The events of an active segment, or none. -/
def idEvents (disk : Disk Path) (manifest : Manifest) (segmentId : UInt64) : List CanonicalEvent :=
  ((manifest.findSegment segmentId).map (eventsOf disk)).getD []

/-- No listed segment with events is listed twice, and if there is anything to merge, the id that
the merged segment will get is not listed. -/
structure Clean (disk : Disk Path) (manifest : Manifest) (ids : List UInt64) : Prop where
  once : ∀ segmentId, idEvents disk manifest segmentId ≠ [] → ids.count segmentId ≤ 1
  unissued : ids.flatMap (idEvents disk manifest) ≠ [] → manifest.nextSegmentId ∉ ids

section Collect

variable {disk : Disk Path} {manifest : Manifest}

theorem collectEvents_ok {ids : List UInt64} {events : List CanonicalEvent}
    (collected : collectEvents disk manifest ids = .ok events) :
    events = ids.flatMap (idEvents disk manifest) ∧
      ∀ segmentId ∈ ids, ∀ seg, manifest.findSegment segmentId = some seg →
      segmentEvents disk seg = .ok (eventsOf disk seg) := by
  induction ids generalizing events with
  | nil => exact ⟨(Except.ok.inj collected).symm, fun segmentId listed => by cases listed⟩
  | cons segmentId rest ih =>
    rw [collectEvents] at collected
    cases found : manifest.findSegment segmentId with
    | none =>
      rw [found] at collected
      obtain ⟨same, each⟩ := ih collected
      refine ⟨?_, List.forall_mem_cons.mpr ⟨fun seg there => ?_, each⟩⟩
      · rw [List.flatMap_cons, idEvents, found, same]
        rfl
      · rw [found] at there
        cases there
    | some seg =>
      rw [found] at collected
      dsimp only at collected
      cases opened : SegmentReader.openFile (disk (.root seg.filename)) with
      | error stop =>
        rw [opened, error_bind] at collected
        cases collected
      | ok reader =>
        rw [opened, ok_bind] at collected
        cases read : reader.readAllEvents with
        | error stop =>
          rw [read, error_bind] at collected
          cases collected
        | ok one =>
          rw [read, ok_bind] at collected
          cases others : collectEvents disk manifest rest with
          | error stop =>
            rw [others, error_bind] at collected
            cases collected
          | ok more =>
            rw [others, ok_bind] at collected
            obtain ⟨same, each⟩ := ih others
            have here : segmentEvents disk seg = .ok one := by
              rw [segmentEvents, opened, ok_bind, read]
            have value : eventsOf disk seg = one := by
              rw [eventsOf, here]
              rfl
            refine ⟨?_, List.forall_mem_cons.mpr ⟨fun other there => ?_, each⟩⟩
            · rw [List.flatMap_cons, idEvents, found, ← same]
              change events = eventsOf disk seg ++ more
              rw [value]
              exact (Except.ok.inj collected).symm
            · rw [found] at there
              rw [← Option.some.inj there, here, value]

theorem collectEvents_of_each {ids : List UInt64} (each : ∀ segmentId ∈ ids, ∀ seg,
    manifest.findSegment segmentId = some seg → segmentEvents disk seg = .ok (eventsOf disk seg)) :
    collectEvents disk manifest ids = .ok (ids.flatMap (idEvents disk manifest)) := by
  induction ids with
  | nil => rfl
  | cons segmentId rest ih =>
    obtain ⟨head, tail⟩ := List.forall_mem_cons.mp each
    rw [collectEvents, ih tail, List.flatMap_cons, idEvents]
    cases found : manifest.findSegment segmentId with
    | none => rfl
    | some seg =>
      have here := head seg found
      unfold segmentEvents at here
      dsimp only
      cases opened : SegmentReader.openFile (disk (.root seg.filename)) with
      | error stop =>
        rw [opened, error_bind] at here
        cases here
      | ok reader =>
        rw [opened, ok_bind] at here
        rw [ok_bind, here, ok_bind, ok_bind]
        rfl

theorem idEvents_inactive {segmentId : UInt64} (inactive : ¬ isActive manifest segmentId = true) :
    idEvents disk manifest segmentId = [] := by
  rw [isActive, Option.not_isSome_iff_eq_none] at inactive
  rw [idEvents, inactive]
  rfl

theorem flatMap_filter_active (ids : List UInt64) :
    (ids.filter (isActive manifest)).flatMap (idEvents disk manifest) =
      ids.flatMap (idEvents disk manifest) := by
  induction ids with
  | nil => rfl
  | cons segmentId rest ih =>
    rw [List.flatMap_cons]
    by_cases active : isActive manifest segmentId
    · rw [List.filter_cons_of_pos active, List.flatMap_cons, ih]
    · rw [List.filter_cons_of_neg active, ih, idEvents_inactive active, List.nil_append]

end Collect

section Dedup

variable {α β : Type} [DecidableEq α] (f : α → List β)

theorem flatMap_dedup {items : List α} (once : ∀ item, f item ≠ [] → items.count item ≤ 1) :
    items.dedup.flatMap f = items.flatMap f := by
  induction items with
  | nil => rfl
  | cons first rest ih =>
    have fewer : ∀ item, f item ≠ [] → rest.count item ≤ 1 := fun item some =>
      (List.count_le_count_cons).trans (once item some)
    by_cases again : first ∈ rest
    · have nothing : f first = [] := by
        by_contra some
        have counted := once first some
        have found := List.count_pos_iff.mpr again
        rw [List.count_cons_self] at counted
        omega
      rw [List.dedup_cons_of_mem again, ih fewer, List.flatMap_cons, nothing, List.nil_append]
    · rw [List.dedup_cons_of_notMem again, List.flatMap_cons, List.flatMap_cons, ih fewer]

theorem length_flatMap_dedup_lt {items : List α} {item : α} (some : f item ≠ [])
    (twice : 1 < items.count item) :
    (items.dedup.flatMap f).length < (items.flatMap f).length := by
  induction items with
  | nil => simp at twice
  | cons first rest ih =>
    by_cases again : first ∈ rest
    · rw [List.dedup_cons_of_mem again, List.flatMap_cons, List.length_append]
      by_cases here : first = item
      · have front : 0 < (f first).length := List.length_pos_iff.mpr (here ▸ some)
        have behind := ((List.dedup_sublist rest).flatMap f).length_le
        omega
      · rw [List.count_cons_of_ne here] at twice
        have shorter := ih twice
        omega
    · have other : first ≠ item := by
        rintro rfl
        rw [List.count_cons_self, List.count_eq_zero_of_not_mem again] at twice
        omega
      rw [List.count_cons_of_ne other] at twice
      rw [List.dedup_cons_of_notMem again, List.flatMap_cons, List.flatMap_cons,
        List.length_append, List.length_append]
      have shorter := ih twice
      omega

end Dedup

section Active

variable {disk : Disk Path} {manifest : Manifest} {ids : List UInt64}

theorem mem_activeIds {segmentId : UInt64} :
    segmentId ∈ activeIds manifest ids ↔ segmentId ∈ ids ∧ isActive manifest segmentId = true := by
  rw [activeIds, List.mem_dedup, List.mem_filter]

theorem isActive_of_events {segmentId : UInt64} (some : idEvents disk manifest segmentId ≠ []) :
    isActive manifest segmentId = true :=
  Decidable.byContradiction fun inactive => some (idEvents_inactive inactive)

theorem count_filter_active {segmentId : UInt64} (some : idEvents disk manifest segmentId ≠ []) :
    (ids.filter (isActive manifest)).count segmentId = ids.count segmentId :=
  List.count_filter (isActive_of_events some)

theorem activeIds_events (once : ∀ segmentId, idEvents disk manifest segmentId ≠ [] →
    ids.count segmentId ≤ 1) :
    (activeIds manifest ids).flatMap (idEvents disk manifest) =
      ids.flatMap (idEvents disk manifest) := by
  rw [activeIds, flatMap_dedup, flatMap_filter_active]
  intro segmentId some
  rw [count_filter_active some]
  exact once segmentId some

theorem removeSegments_map (distinct : Distinct manifest.segments) (ids : List UInt64) :
    (ids.foldl Manifest.removeSegment manifest).segments =
      manifest.segments.map fun seg => keptIf (seg.segmentId ∉ ids) seg := by
  have one {segments : List SegmentMeta} (distinct : Distinct segments) (dropped : UInt64) :
      dropSegment dropped segments = segments.map fun seg =>
        keptIf (seg.segmentId ≠ dropped) seg := by
    induction segments with
    | nil => rfl
    | cons seg rest ih =>
      obtain ⟨fresh, others⟩ := List.nodup_cons.mp distinct
      rw [dropSegment, List.map_cons, ← ih others]
      by_cases here : seg.segmentId = dropped
      · have untouched : dropSegment dropped rest = rest := by
          rw [ih others]
          refine (List.map_congr_left fun other listed => ?_).trans (List.map_id _)
          have apart : other.segmentId ≠ dropped := by
            intro same
            exact fresh (List.mem_map.mpr ⟨other, listed, same.trans here.symm⟩)
          rw [decide_eq_true apart, keptIf_true]
          rfl
        rw [if_pos here, untouched, decide_eq_false (not_not_intro here)]
        simp [keptIf]
      · rw [if_neg here, decide_eq_true here, keptIf_true]
  induction ids generalizing manifest with
  | nil => simp
  | cons dropped rest ih =>
    have still : Distinct (manifest.removeSegment dropped).segments := by
      rw [Distinct, Manifest.removeSegment, ids_dropSegment]
      exact distinct
    rw [List.foldl_cons, ih still, Manifest.removeSegment, one distinct, List.map_map]
    refine List.map_congr_left fun seg _ => ?_
    rw [Function.comp, keptIf_segmentId, keptIf_keptIf]
    congr 1
    simp

/-- In memory, only the active segments of the list are removed. -/
theorem installManifest_activeIds (sound : manifest.Sound) (entry : SegmentMeta) :
    installManifest manifest ids entry =
      installManifest manifest (activeIds manifest ids) entry := by
  have same : ids.foldl Manifest.removeSegment (takeIds manifest) =
      (activeIds manifest ids).foldl Manifest.removeSegment (takeIds manifest) := by
    have segments : (ids.foldl Manifest.removeSegment (takeIds manifest)).segments =
        ((activeIds manifest ids).foldl Manifest.removeSegment (takeIds manifest)).segments := by
      have distinct : Distinct (takeIds manifest).segments := sound.distinct
      rw [removeSegments_map distinct, removeSegments_map distinct]
      refine List.map_congr_left fun seg listed => ?_
      cases active : seg.active with
      | false => simp [keptIf, active]
      | true =>
        have found : isActive manifest seg.segmentId = true := by
          rw [isActive,
            (findSegment_iff sound.distinct).mpr ⟨entryOf_of_mem sound.distinct listed, active⟩]
          rfl
        have both : seg.segmentId ∈ activeIds manifest ids ↔ seg.segmentId ∈ ids := by
          rw [mem_activeIds]
          exact and_iff_left found
        rw [decide_eq_decide.mpr (not_congr both)]
    have parts : ∀ one two : Manifest, one.version = two.version →
        one.nextSegmentId = two.nextSegmentId →
        one.nextTxId = two.nextTxId → one.segments = two.segments → one = two := by
      rintro ⟨_, _, _, _⟩ ⟨_, _, _, _⟩ rfl rfl rfl rfl
      rfl
    have first := removeSegments_ids ids (takeIds manifest)
    have second := removeSegments_ids (activeIds manifest ids) (takeIds manifest)
    exact parts _ _ (by rw [removeSegments_version, removeSegments_version])
      (by rw [first.1, second.1]) (by rw [first.2, second.2]) segments
  rw [installManifest, installManifest, same]

end Active

section Recovered

variable {disk left : Disk Path} {saved saved' manifest : Manifest}
  {history : List Attempt} {limit limit' : Nat}
  {catalog : Catalog} {added : Attempt}

/-- A removal that was journalled earlier is carried out, on its own or because its transaction id
is committed now. -/
def DroppedBefore (history : List Attempt) (committed txId segmentId : UInt64) : Prop :=
  ∃ remover ∈ history, txId.toNat ≤ remover.txId.toNat ∧ segmentId ∈ remover.removed ∧
    ((∃ witness ∈ history, witness.txId = remover.txId ∧ witness.stage = .committed) ∨
      committed = remover.txId)

theorem dropped_snoc_iff (committed : added.stage = .committed) (txId segmentId : UInt64) :
    Dropped (history ++ [added]) txId segmentId ↔ DroppedBefore history added.txId txId segmentId ∨
      (txId.toNat ≤ added.txId.toNat ∧ segmentId ∈ removes added.op) := by
  have removed : added.removed = removes added.op := by rw [Attempt.removed, committed]
  constructor
  · rintro ⟨remover, listed, reach, removal, witness, among, same, done⟩
    rcases List.mem_append.mp listed with old | new
    · refine .inl ⟨remover, old, reach, removal, ?_⟩
      rcases List.mem_append.mp among with before | last
      · exact .inl ⟨witness, before, same, done⟩
      · exact .inr (List.mem_singleton.mp last ▸ same)
    · rw [List.mem_singleton.mp new] at reach removal
      exact .inr ⟨reach, removed ▸ removal⟩
  · rintro (⟨remover, old, reach, removal, ⟨witness, before, same, done⟩ | same⟩ | ⟨reach, removal⟩)
    · exact ⟨remover, List.mem_append_left _ old, reach, removal, witness,
        List.mem_append_left _ before, same, done⟩
    · exact ⟨remover, List.mem_append_left _ old, reach, removal, added, by simp, same, committed⟩
    · exact dropped_last reach committed removal

theorem DroppedBefore.of_dropped {txId segmentId : UInt64}
    (dropped : Dropped history txId segmentId) (committed : UInt64) :
    DroppedBefore history committed txId segmentId := by
  obtain ⟨remover, listed, reach, removal, witness⟩ := dropped
  exact ⟨remover, listed, reach, removal, .inl witness⟩

theorem mem_recovered_snoc (session : InSession disk saved history limit catalog)
    (committed : added.stage = .committed)
    (txId : added.txId = catalog.manifest.nextTxId)
    (recorded : Recorded left saved' (history ++ [added]) limit')
    (result : recovered left {} = .ok manifest) (entry : SegmentMeta) :
    entry ∈ manifest.activeSegments ↔
      ∃ attempt, ((Owner history attempt ∧ added.entry.segmentId ≠ attempt.entry.segmentId) ∨
        attempt.entry = added.entry ∧
        attempt.txId = added.txId) ∧ attempt.entry = entry ∧
          fileValid (left (segmentPath entry.segmentId)) = true ∧
        ¬ DroppedBefore history added.txId attempt.txId entry.segmentId ∧
          entry.segmentId ∉ removes added.op := by
  rw [recorded.mem_recovered result]
  constructor
  · rintro ⟨attempt, owner, same, valid, undropped⟩
    rw [dropped_snoc_iff committed, not_or] at undropped
    have reach : attempt.txId.toNat ≤ added.txId.toNat := by
      rcases owner_snoc owner with ⟨rfl, -⟩ | ⟨old, -⟩
      · exact le_rfl
      · exact txId ▸ (session.issued attempt (Recorded.mem_of_owner old).1).1
    refine ⟨attempt, ?_, same, valid, undropped.1, fun removal => undropped.2 ⟨reach, removal⟩⟩
    rcases owner_snoc owner with ⟨rfl, -⟩ | old
    · exact .inr ⟨rfl, rfl⟩
    · exact .inl old
  · rintro ⟨attempt, ⟨old, apart⟩ | ⟨new, sameTx⟩, same, valid, undropped, kept⟩
    · refine ⟨attempt, Recorded.owner_append old apart, same, valid, ?_⟩
      rw [dropped_snoc_iff committed, not_or]
      exact ⟨undropped, fun removal => kept removal.2⟩
    · refine ⟨added, owner_last committed, new ▸ same, valid, ?_⟩
      rw [dropped_snoc_iff committed, not_or]
      exact ⟨sameTx ▸ undropped, fun removal => kept removal.2⟩

end Recovered

section Compare

variable {disk : Disk Path} {saved : Manifest} {history : List Attempt} {limit : Nat}
  {catalog : Catalog} {host : Host}
  {ids : List UInt64} {events : List CanonicalEvent} {file : Bytes} {entry : SegmentMeta}

theorem sameEvents_refl (events : Except Stop (List CanonicalEvent)) :
    SameEvents events events := by
  cases events with
  | ok events => exact .inl ⟨events, events, rfl, rfl, .refl events⟩
  | error stop => exact .inr ⟨stop, stop, rfl, rfl⟩

theorem sameEvents_perm {first second : Disk Path} {segments others : List SegmentMeta}
    (perm : segments.Perm others)
    (same : ∀ seg ∈ segments, segmentEvents first seg = segmentEvents second seg) :
    SameEvents (segmentsEvents first segments) (segmentsEvents second others) := by
  cases one : segmentsEvents first segments with
  | ok events =>
    obtain ⟨each, whole⟩ := segmentsEvents_each one
    have values : ∀ seg ∈ others, segmentEvents second seg = .ok (eventsOf first seg) :=
      fun seg listed => by
      have among := perm.mem_iff.mpr listed
      rw [← same seg among, each seg among]
    exact .inl ⟨events, _, rfl, segmentsEvents_eq values, whole ▸ perm.flatMap_right _⟩
  | error stop =>
    cases two : segmentsEvents second others with
    | error other => exact .inr ⟨stop, other, rfl, rfl⟩
    | ok events =>
      obtain ⟨each, -⟩ := segmentsEvents_each two
      have values : ∀ seg ∈ segments, segmentEvents first seg = .ok (eventsOf second seg) :=
        fun seg listed => by
        rw [same seg listed, each seg (perm.mem_iff.mp listed)]
      rw [segmentsEvents_eq values] at one
      cases one

theorem compactSegments_nothing (collected : collectEvents disk catalog.manifest ids = .ok []) :
    (compactSegments host ids).exec [] disk catalog = ⟨.ok [], disk, catalog, [], []⟩ := by
  rw [compactSegments]
  by_cases listed : ids = []
  · rw [if_pos listed]
    rfl
  · rw [if_neg listed, Prog.exec_fetch, Prog.exec_files]
    dsimp only
    rw [collected, exec_lift_ok, if_pos rfl]
    rfl

theorem alike_refl {run : CompactRun} {created : List UInt64}
    (returned : run.outcome = .ok created) : Alike run run where
  returned := ⟨created, returned, returned⟩
  active := rfl
  events := sameEvents_refl _
  recovered _ _ := ⟨.refl _, sameEvents_refl _⟩

theorem activeIds_nothing (collected : collectEvents disk catalog.manifest ids = .ok []) :
    collectEvents disk catalog.manifest (activeIds catalog.manifest ids) = .ok [] := by
  obtain ⟨empty, each⟩ := collectEvents_ok collected
  rw [collectEvents_of_each fun segmentId listed => each segmentId (mem_activeIds.mp listed).1]
  refine congrArg Except.ok (List.flatMap_eq_nil_iff.mpr fun segmentId listed => ?_)
  exact List.flatMap_eq_nil_iff.mp empty.symm segmentId (mem_activeIds.mp listed).1

theorem compacts_activeIds (compacts : Compacts host disk catalog.manifest ids events file entry)
    (once : ∀ segmentId, idEvents disk catalog.manifest segmentId ≠ [] → ids.count segmentId ≤ 1) :
    Compacts host disk catalog.manifest (activeIds catalog.manifest ids) events file entry := by
  obtain ⟨whole, each⟩ := collectEvents_ok compacts.collected
  have same := activeIds_events once
  refine ⟨?_, ?_, compacts.nonempty, compacts.written, compacts.opened⟩
  · intro none
    rw [none, ← whole] at same
    exact compacts.nonempty same.symm
  · rw [collectEvents_of_each fun segmentId listed =>
      each segmentId (mem_activeIds.mp listed).1, same, whole]

theorem fits_activeIds (fits : Fits ids) : Fits (activeIds catalog.manifest ids) :=
  (((List.dedup_sublist _).trans List.filter_sublist).length_le).trans fits

theorem compacts_entry (compacts : Compacts host disk catalog.manifest ids events file entry) :
    entry.segmentId = catalog.manifest.nextSegmentId ∧ Named entry ∧ entry.active = true ∧
      entry.rowCount = UInt64.ofNat events.length := by
  obtain ⟨reader, -, same⟩ := compacts.opened
  rw [same]
  refine ⟨rfl, rfl, rfl, ?_⟩
  change UInt64.ofNat (host.order.sort events).length = _
  rw [(host.order.perm events).length_eq]

theorem compacts_few (compacts : Compacts host disk catalog.manifest ids events file entry) :
    events.length < 2 ^ 63 := by
  obtain ⟨fresh, writer, created, -⟩ := compacts.written
  rw [(host.order.perm events).length_eq] at created
  unfold SegmentWriter.new rowBytes at created
  split at created
  · cases created
  · omega

theorem afterCall_disk {α : Type} (world : World) (run : Prog.Run Path Catalog Stop α) :
    (world.afterCall run none).disk = run.disk := rfl

theorem compacted_recorded {world : World} (invariant : Invariant world saved history limit)
    (session : InSession world.disk saved history limit catalog)
    (room : limit + 1 < 2 ^ 64) (fits : Fits ids)
    (compacts : Compacts host world.disk catalog.manifest ids events file entry) :
    ∃ added : Attempt, added.stage = .committed ∧
      added.txId = catalog.manifest.nextTxId ∧ added.entry = entry ∧
      removes added.op = ids ∧
      Recorded (applyAll world.disk (done (compactEffects catalog.manifest ids file entry)))
        (installManifest catalog.manifest ids entry) (history ++ [added]) (limit + 1) := by
  have performs := compact_performs compacts fits
  have recorded :=
    (install_finished invariant session performs room [catalog.manifest.nextSegmentId]).recorded
  rw [afterCall_disk, installRun] at recorded
  dsimp only at recorded
  exact ⟨performs.installs.attempt .committed, rfl, rfl, rfl, rfl, recorded⟩

theorem compacted_file (session : InSession disk saved history limit catalog) {segmentId : UInt64}
    (unlisted : segmentId ∉ ids) :
    applyAll disk (done (compactEffects catalog.manifest ids file entry)) (segmentPath segmentId) =
      if segmentId = catalog.manifest.nextSegmentId then
        some file else disk (segmentPath segmentId) := by
  obtain ⟨creationTs, journal⟩ := session.journal
  rw [compact_segments (by rw [journal]; rfl), if_neg unlisted]

/-- A recovery behind the call with the list finds what a recovery behind the other call finds. -/
theorem recovered_alike (session : InSession disk saved history limit catalog)
    (unissued : catalog.manifest.nextSegmentId ∉ ids)
    (id : entry.segmentId = catalog.manifest.nextSegmentId)
    {one two : Attempt} (committed : one.stage = .committed ∧ two.stage = .committed)
    (txIds : one.txId = catalog.manifest.nextTxId ∧ two.txId = catalog.manifest.nextTxId)
    (entries : one.entry = entry ∧ two.entry = entry)
    (removals : removes one.op = ids ∧ removes two.op = activeIds catalog.manifest ids)
    {left right : Disk Path}
    (leftFiles : ∀ segmentId ∉ ids, left (segmentPath segmentId) =
      if segmentId = catalog.manifest.nextSegmentId then
        some file else disk (segmentPath segmentId))
    (rightFiles : ∀ segmentId ∉ activeIds catalog.manifest ids, right (segmentPath segmentId) =
      if segmentId = catalog.manifest.nextSegmentId then
        some file else disk (segmentPath segmentId))
    {saved' saved'' first second : Manifest} {limit' limit'' : Nat}
    (leftRecorded : Recorded left saved' (history ++ [one]) limit')
    (rightRecorded : Recorded right saved'' (history ++ [two]) limit'')
    (leftResult : recovered left {} = .ok first)
    (rightResult : recovered right {} = .ok second) (seg : SegmentMeta) :
    (seg ∈ first.activeSegments ↔ seg ∈ second.activeSegments) ∧
      (seg ∈ first.activeSegments → seg.segmentId ∉ ids) := by
  have inactive : ∀ {segmentId}, segmentId ∉ ids → segmentId ∉ activeIds catalog.manifest ids :=
    fun unlisted listed => unlisted (mem_activeIds.mp listed).1
  rw [mem_recovered_snoc session committed.1 txIds.1 leftRecorded leftResult,
    mem_recovered_snoc session committed.2 txIds.2 rightRecorded rightResult, entries.1, entries.2,
    txIds.1, txIds.2, removals.1, removals.2]
  refine ⟨⟨?_, ?_⟩, fun ⟨_, _, _, _, _, unlisted⟩ => unlisted⟩
  · rintro ⟨attempt, origin, same, valid, undropped, unlisted⟩
    refine ⟨attempt, origin, same, ?_, undropped, inactive unlisted⟩
    rwa [rightFiles _ (inactive unlisted), ← leftFiles _ unlisted]
  · rintro ⟨attempt, origin, same, valid, undropped, notActive⟩
    suffices unlisted : seg.segmentId ∉ ids by
      refine ⟨attempt, origin, same, ?_, undropped, unlisted⟩
      rwa [leftFiles _ unlisted, ← rightFiles _ notActive]
    intro listed
    rcases origin with ⟨owner, apart⟩ | ⟨new, -⟩
    · -- What a recovery would have found before the call was active.
      have old : seg.segmentId ≠ catalog.manifest.nextSegmentId :=
        fun other => apart (id.trans (same ▸ other).symm)
      rw [rightFiles _ notActive, if_neg old] at valid
      have active := session.covered attempt owner (same ▸ valid) fun dropped =>
        undropped (same ▸ DroppedBefore.of_dropped dropped _)
      rw [same] at active
      have found :=
        (findSegment_iff session.sound.distinct).mpr
        ((mem_activeSegments_iff session.sound.distinct).mp active)
      refine notActive (mem_activeIds.mpr ⟨listed, ?_⟩)
      rw [isActive, found]
      rfl
    · rw [← same, new, id] at listed
      exact unissued listed

theorem alike_of_clean {world : World} (invariant : Invariant world saved history limit)
    (session : InSession world.disk saved history limit catalog)
    (room : limit + 1 < 2 ^ 64) (fits : Fits ids)
    {created : List UInt64}
    (returned : ((compactSegments host ids).exec [] world.disk catalog).outcome = .ok created)
    (clean : Clean world.disk catalog.manifest ids) :
    Alike ((compactSegments host ids).exec [] world.disk catalog)
      ((compactSegments host (activeIds catalog.manifest ids)).exec [] world.disk catalog) := by
  rcases compactSegments_cases host world.disk ids session.opened with
    ⟨events, file, entry, compacts⟩ | quiet
  swap
  · have nothing : collectEvents world.disk catalog.manifest ids = .ok [] := by
      rcases (quiet.returned created returned).2 with empty | nothing
      · rw [empty]
        rfl
      · exact nothing
    rw [compactSegments_nothing nothing, compactSegments_nothing (activeIds_nothing nothing)]
    exact alike_refl rfl
  obtain ⟨whole, -⟩ := collectEvents_ok compacts.collected
  have unissued := clean.unissued (whole ▸ compacts.nonempty)
  have other := compacts_activeIds compacts clean.once
  obtain ⟨id, named, active, -⟩ := compacts_entry compacts
  have bound := session.nextSegment
  have manifests := @installManifest_activeIds catalog.manifest ids session.sound entry
  obtain ⟨one, oneCommitted, oneTx, oneEntry, oneRemoves, oneRecorded⟩ :=
    compacted_recorded invariant session room fits compacts
  obtain ⟨two, twoCommitted, twoTx, twoEntry, twoRemoves, twoRecorded⟩ :=
    compacted_recorded invariant session room (fits_activeIds fits) other
  have leftFiles :=
    fun segmentId =>
    @compacted_file world.disk saved history limit catalog ids file entry session segmentId
  have rightFiles := fun segmentId => @compacted_file world.disk saved history limit catalog
    (activeIds catalog.manifest ids) file entry session segmentId
  rw [compactSegments_exec session.opened compacts, compactSegments_exec session.opened other]
  generalize applyAll world.disk (done (compactEffects catalog.manifest ids file entry)) = left at *
  generalize applyAll world.disk
    (done (compactEffects catalog.manifest (activeIds catalog.manifest ids) file entry)) =
    right at *
  have sameFiles : ∀ seg : SegmentMeta, Named seg → seg.segmentId ∉ ids →
      segmentEvents left seg = segmentEvents right seg :=
    fun seg called unlisted => segmentEvents_named called (by
      rw [leftFiles _ unlisted, rightFiles _ fun listed => unlisted (mem_activeIds.mp listed).1])
  refine ⟨⟨_, rfl, rfl⟩, congrArg Manifest.activeSegments manifests, ?_,
    fun firstDone secondDone => ?_⟩
  · dsimp only
    rw [← manifests]
    refine sameEvents_perm (.refl _) fun seg listed => ?_
    rcases (mem_active_installManifest session.sound (by omega) id active).mp listed with
      ⟨old, unlisted⟩ | rfl
    · exact sameFiles seg (session.sound.named seg (mem_activeSegments.mp old).1) unlisted
    · exact sameFiles seg named (id ▸ unissued)
  · obtain ⟨first, firstResult, firstDisk, firstState⟩ := freshRecovery_ok firstDone
    obtain ⟨second, secondResult, secondDisk, secondState⟩ := freshRecovery_ok secondDone
    have sweptLeft := oneRecorded.untouched (untouched_swept left) le_rfl oneRecorded.small
    have sweptRight := twoRecorded.untouched (untouched_swept right) le_rfl twoRecorded.small
    have found :=
      recovered_alike session unissued id ⟨oneCommitted, twoCommitted⟩
      ⟨oneTx, twoTx⟩ ⟨oneEntry, twoEntry⟩
      ⟨oneRemoves, twoRemoves⟩
        (fun segmentId unlisted => ((untouched_swept left).segments _).trans (leftFiles _ unlisted))
      (fun segmentId unlisted => ((untouched_swept right).segments _).trans (rightFiles _ unlisted))
        sweptLeft sweptRight
      firstResult secondResult
    have firstSound := (sweptLeft.restored firstResult).sound
    have secondSound := (sweptRight.restored secondResult).sound
    have perm : first.activeSegments.Perm second.activeSegments :=
      (List.perm_ext_iff_of_nodup (nodup_activeSegments firstSound.distinct)
        (nodup_activeSegments secondSound.distinct)).mpr fun seg => (found seg).1
    dsimp only
    rw [firstDisk, secondDisk, firstState, secondState]
    refine ⟨perm, sameEvents_perm perm fun seg listed => ?_⟩
    have called := firstSound.named seg (mem_activeSegments.mp listed).1
    rw [segmentEvents_named called (resaved_segmentPath left first seg.segmentId),
      segmentEvents_named called (resaved_segmentPath right second seg.segmentId)]
    exact sameFiles seg called ((found seg).2 listed)

/-- Where the events behind the call with the distinct active segments can be read,
only a clean list is as good. -/
theorem clean_of_alike (session : InSession disk saved history limit catalog)
    (room : limit + 1 < 2 ^ 64)
    {created : List UInt64}
    (returned : ((compactSegments host ids).exec [] disk catalog).outcome = .ok created)
    {read : List CanonicalEvent} (readable : activeEvents
      ((compactSegments host (activeIds catalog.manifest ids)).exec [] disk catalog).disk
      ((compactSegments host (activeIds catalog.manifest ids)).exec [] disk
        catalog).state.manifest = .ok read)
    (alike : Alike ((compactSegments host ids).exec [] disk catalog)
      ((compactSegments host (activeIds catalog.manifest ids)).exec [] disk catalog)) :
    Clean disk catalog.manifest ids := by
  rcases compactSegments_cases host disk ids session.opened with
    ⟨events, file, entry, compacts⟩ | quiet
  swap
  · have nothing : ids.flatMap (idEvents disk catalog.manifest) = [] := by
      rcases (quiet.returned created returned).2 with empty | nothing
      · rw [empty, List.flatMap_nil]
      · exact (collectEvents_ok nothing).1.symm
    refine ⟨fun segmentId some => ?_, fun some => absurd nothing some⟩
    have unlisted : segmentId ∉ ids :=
      fun listed => some (List.flatMap_eq_nil_iff.mp nothing segmentId listed)
    rw [List.count_eq_zero_of_not_mem unlisted]
    exact Nat.zero_le 1
  obtain ⟨id, named, active, rows⟩ := compacts_entry compacts
  have bound := session.nextSegment
  have events' := alike.events
  have active' := alike.active
  obtain ⟨made, first, second⟩ := alike.returned
  rw [compactSegments_exec session.opened compacts] at events' active' first
  dsimp only at events' active' first
  rcases compactSegments_cases host disk (activeIds catalog.manifest ids) session.opened with
    ⟨others, otherFile, otherEntry, otherCompacts⟩ | quiet
  swap
  · have run := (quiet.returned made second).1
    rw [run] at second
    have impossible := (Except.ok.inj second).trans (Except.ok.inj first).symm
    cases impossible
  obtain ⟨otherId, -, otherActive, otherRows⟩ := compacts_entry otherCompacts
  rw [readable] at events'
  rw [compactSegments_exec session.opened otherCompacts] at active'
  dsimp only at active'
  have listed : entry ∈ (installManifest catalog.manifest ids entry).activeSegments :=
    (mem_active_installManifest session.sound (by omega) id active).mpr (.inr rfl)
  -- Both lists hold an entry of the new id, so it is the same one, with the same number of rows.
  have same : entry = otherEntry := by
    rw [Catalog.activeSegments, Catalog.activeSegments] at active'
    rw [active'] at listed
    rcases (mem_active_installManifest session.sound (by omega) otherId otherActive).mp listed with
      ⟨old, -⟩ | same
    · have below := session.sound.below entry (mem_activeSegments.mp old).1
      rw [id] at below
      exact absurd below (lt_irrefl _)
    · exact same
  have lengths : events.length = others.length := by
    rw [same, otherRows] at rows
    have counts := congrArg UInt64.toNat rows
    have few := compacts_few compacts
    have otherFew := compacts_few otherCompacts
    rw [UInt64.toNat_ofNat', UInt64.toNat_ofNat', Nat.mod_eq_of_lt (by omega),
      Nat.mod_eq_of_lt (by omega)] at counts
    exact counts.symm
  rw [(collectEvents_ok compacts.collected).1,
    (collectEvents_ok otherCompacts.collected).1, activeIds] at lengths
  refine ⟨fun segmentId some => ?_, fun _ issued => ?_⟩
  · by_contra repeated
    have shorter := length_flatMap_dedup_lt (idEvents disk catalog.manifest) some
      (show 1 < (ids.filter (isActive catalog.manifest)).count segmentId by
        rw [count_filter_active some]
        omega)
    rw [flatMap_filter_active] at shorter
    omega
  · -- The merged file was deleted with the superseded ones.
    obtain ⟨creationTs, journal⟩ := session.journal
    have gone :=
      compact_segments (show (disk journalPath).isSome by rw [journal]; rfl) catalog.manifest ids
      file entry catalog.manifest.nextSegmentId
    rw [if_pos issued] at gone
    rcases events' with ⟨one, two, readOne, -, -⟩ | ⟨_, _, _, impossible⟩
    · have here := (segmentsEvents_each readOne).1 entry listed
      have path : Path.root entry.filename = segmentPath catalog.manifest.nextSegmentId :=
        (congrArg Path.root named).trans (congrArg segmentPath id)
      rw [segmentEvents, path, gone] at here
      cases here
    · cases impossible

end Compare

/-- In a directory that was opened, committed to and compacted, with crashes at any place
that the callers do not exclude, a compaction that returns does what it does for the
distinct active segments of its list if the list is clean; and only then, if the events
behind that other call can be read. -/
theorem compaction_list_iff {start : World} (blank : start.Blank) {ops : List CatalogOp}
    (careful : ∀ op ∈ ops, op.Careful) (few : ops.length + 2 < 2 ^ 64) {catalog : Catalog}
    (found : (start.run ops).session = some catalog) (host : Host)
    {ids : List UInt64} (fits : Fits ids)
    {created : List UInt64}
    (returned : ((compactSegments host ids).exec [] (start.run ops).disk catalog).outcome =
      .ok created) :
    (Clean (start.run ops).disk catalog.manifest ids →
      Alike ((compactSegments host ids).exec [] (start.run ops).disk catalog)
        ((compactSegments host (activeIds catalog.manifest ids)).exec []
          (start.run ops).disk catalog)) ∧
    ((∃ events, activeEvents
        ((compactSegments host (activeIds catalog.manifest ids)).exec []
          (start.run ops).disk catalog).disk
        ((compactSegments host (activeIds catalog.manifest ids)).exec []
          (start.run ops).disk catalog).state.manifest =
          .ok events) →
      Alike ((compactSegments host ids).exec [] (start.run ops).disk catalog)
        ((compactSegments host (activeIds catalog.manifest ids)).exec []
          (start.run ops).disk catalog) →
      Clean (start.run ops).disk catalog.manifest ids) := by
  obtain ⟨saved, history, reached, -⟩ := (blank_reached blank).run ops careful (by omega)
  rw [List.nil_append, Nat.zero_add] at reached
  have session := reached.invariant.session catalog found
  refine ⟨alike_of_clean reached.invariant session (by omega) fits returned, ?_⟩
  rintro ⟨events, readable⟩ alike
  exact clean_of_alike session (by omega) returned readable alike

-- The segment of a quote, with an id that no segment has.

theorem quote_compacts_with {file : Bytes}
    (reads : SegmentReader.Reads file [quoteEvent]) {other : UInt64}
    (unknown : (commitManifest {} {}).findSegment other = none) :
    ∃ compacted entry, Compacts plainHost (quoteCommitted file).disk (commitManifest {} {})
    [1, other] [quoteEvent] compacted
      entry := by
  have there := quoteCommitted_segments file 1
  rw [if_pos rfl] at there
  obtain ⟨compacted, entry, compacts⟩ :=
    @quote_compacts (quoteCommitted file).disk (commitManifest {} {}) 1
    (commitEntry {} {}) file rfl there reads
  obtain ⟨whole, each⟩ := collectEvents_ok compacts.collected
  refine ⟨compacted, entry, by simp, ?_, compacts.nonempty, compacts.written, compacts.opened⟩
  have nothing : idEvents (quoteCommitted file).disk (commitManifest {} {}) other = [] :=
    idEvents_inactive (by simp [isActive, unknown])
  rw [collectEvents_of_each, whole]
  · rw [List.flatMap_cons, List.flatMap_singleton, List.flatMap_singleton, nothing, List.append_nil]
  · refine List.forall_mem_cons.mpr
      ⟨each 1 List.mem_cons_self, List.forall_mem_singleton.mpr fun seg found => ?_⟩
    rw [unknown] at found
    cases found

theorem quote_activeIds {other : UInt64}
    (unknown : (commitManifest {} {}).findSegment other = none) :
    activeIds (commitManifest {} {}) [1, other] = [1] := by
  have first : isActive (commitManifest {} {}) 1 = true := rfl
  have second : ¬ isActive (commitManifest {} {}) other = true := by simp [isActive, unknown]
  rw [activeIds, List.filter_cons_of_pos first, List.filter_cons_of_neg second, List.filter_nil]
  rfl

theorem quoteCommitted_careful (file : Bytes) :
    ∀ op ∈ [CatalogOp.openCatalog 0 none, .stage quotePath file,
      .commit quotePath {} none], op.Careful :=
  fun op listed => (quoteCommitted_plain file op listed).1

theorem compaction_list_quote : ∃ file,
    Alike ((compactSegments plainHost [1, 7]).exec [] (quoteCommitted file).disk
        ⟨commitManifest {} {}, ⟨some journalPath⟩⟩)
      ((compactSegments plainHost [1]).exec [] (quoteCommitted file).disk
        ⟨commitManifest {} {}, ⟨some journalPath⟩⟩) := by
  obtain ⟨file, reads, -⟩ := quote_shelved
  have unknown : (commitManifest {} {}).findSegment 7 = none := rfl
  obtain ⟨compacted, entry, compacts⟩ := quote_compacts_with reads unknown
  have returned : ((compactSegments plainHost [1, 7]).exec [] (quoteCommitted file).disk
      ⟨commitManifest {} {}, ⟨some journalPath⟩⟩).outcome = .ok [2] := by
    rw [compactSegments_exec rfl compacts]
    rfl
  have session := quoteCommitted_session file
  rw [quoteCommitted_run] at session returned
  have fits : Fits [1, 7] := by
    unfold Fits
    decide
  have clean : Clean
      (blankWorld.run [.openCatalog 0 none, .stage quotePath file, .commit quotePath {} none]).disk
      (commitManifest {} {}) [1, 7] :=
    ⟨fun segmentId _ => List.nodup_iff_count_le_one.mp (by decide) segmentId, fun _ => by decide⟩
  have alike :=
    (@compaction_list_iff blankWorld blankWorld_blank _ (quoteCommitted_careful file)
    (by simp) _ session
    plainHost [1, 7] fits [2] returned).1 clean
  rw [← quoteCommitted_run, quote_activeIds unknown] at alike
  exact ⟨file, alike⟩

/-- The id that the merged segment gets, listed in advance, makes the call delete its own result. -/
theorem compaction_list_not_alike : ∃ file,
    ((compactSegments plainHost [1, 2]).exec [] (quoteCommitted file).disk
        ⟨commitManifest {} {}, ⟨some journalPath⟩⟩).outcome = .ok [2] ∧
      activeIds (commitManifest {} {}) [1, 2] = [1] ∧
      ¬ Alike ((compactSegments plainHost [1, 2]).exec [] (quoteCommitted file).disk
          ⟨commitManifest {} {}, ⟨some journalPath⟩⟩)
        ((compactSegments plainHost [1]).exec [] (quoteCommitted file).disk
          ⟨commitManifest {} {}, ⟨some journalPath⟩⟩) := by
  obtain ⟨file, reads, shelved⟩ := quote_shelved
  have unknown : (commitManifest {} {}).findSegment 2 = none := rfl
  obtain ⟨compacted, entry, compacts⟩ := quote_compacts_with reads unknown
  have returned : ((compactSegments plainHost [1, 2]).exec [] (quoteCommitted file).disk
      ⟨commitManifest {} {}, ⟨some journalPath⟩⟩).outcome = .ok [2] := by
    rw [compactSegments_exec rfl compacts]
    rfl
  refine ⟨file, returned, quote_activeIds unknown, fun alike => ?_⟩
  obtain ⟨saved, history, reached, -⟩ := (blank_reached blankWorld_blank).run
    [.openCatalog 0 none, .stage quotePath file, .commit quotePath {} none]
      (quoteCommitted_careful file) (by simp)
  rw [← quoteCommitted_run] at reached
  have session := reached.invariant.session _ (quoteCommitted_session file)
  obtain ⟨_, second⟩ := alike.returned
  obtain ⟨_, _, -, compacted⟩ :=
    @compact_preserves _ _ _ (fun _ => [quoteEvent]) plainHost [1] session.isOpened (by simp)
    (shelved.stocked session.sound) (List.cons_ne_nil 1 [])
      (List.nodup_singleton 1) quote_listed (by decide) _ second.2
  obtain ⟨_, read, -, readable, -⟩ := compacted.preserved
  have clean :=
    @clean_of_alike _ _ _ _ ⟨commitManifest {} {}, ⟨some journalPath⟩⟩ plainHost
    [1, 2] session (by simp) _
    returned read (by rw [quote_activeIds unknown]; exact readable)
      (by rw [quote_activeIds unknown]; exact alike)
  refine clean.unissued ?_ (by decide)
  obtain ⟨whole, -⟩ := collectEvents_ok compacts.collected
  exact whole ▸ compacts.nonempty

end VectorTick
