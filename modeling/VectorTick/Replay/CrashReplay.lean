import VectorTick.Replay.ReplayEngine
import VectorTick.Storage.AtomicStore

/-! What a replay delivers of a catalog that has been through commits, compactions and crashes. -/

set_option autoImplicit false

namespace VectorTick

open Foundation Catalog SegmentWriter

/-- A replay of the catalog to any callback ends without an error, and the callback has seen the
events of the bag, each as often as it is in there. -/
def Replays (disk : Disk Path) (catalog : Catalog) (bag : Multiset CanonicalEvent) : Prop :=
  ∀ (σ : Type) (order : SegmentSort) (call : σ → CanonicalEvent → σ) (session : Session σ),
    ∃ (events : List CanonicalEvent) (replayed : Session σ),
      (events : Multiset CanonicalEvent) = bag ∧
      session.replayCatalog order disk catalog (some call) = (replayed, .ok ()) ∧
      replayed.seen = events.foldl call session.seen ∧
      replayed.engine.stats.totalEvents =
        session.engine.stats.totalEvents + UInt64.ofNat events.length

theorem observe_totalEvents (engine : ReplayEngine) (ev : CanonicalEvent) :
    (engine.observe ev).stats.totalEvents = engine.stats.totalEvents + 1 := by
  unfold ReplayEngine.observe ReplayEngine.verify
  dsimp only
  split_ifs <;> rfl

theorem run_totalEvents (engine : ReplayEngine) (events : List CanonicalEvent) :
    (events.foldl ReplayEngine.observe engine).stats.totalEvents =
      engine.stats.totalEvents + UInt64.ofNat events.length := by
  induction events generalizing engine with
  | nil => simp
  | cons ev rest ih =>
    rw [List.foldl_cons, ih, observe_totalEvents, List.length_cons, UInt64.ofNat_add,
      UInt64.add_assoc, UInt64.add_comm 1]
    rfl

theorem segmentsEvents_stored {disk : Disk Path} {segments : List SegmentMeta}
    {events : List CanonicalEvent}
    (read : segmentsEvents disk segments = .ok events) :
    (∀ seg ∈ segments, Readable disk seg) ∧ events = segments.flatMap (storedEvents disk) := by
  induction segments generalizing events with
  | nil =>
    cases read
    exact ⟨by simp, rfl⟩
  | cons seg rest ih =>
    unfold segmentsEvents at read
    cases first : segmentEvents disk seg with
    | error stop =>
      rw [first] at read
      cases read
    | ok here =>
      rw [first, ok_bind] at read
      cases later : segmentsEvents disk rest with
      | error stop =>
        rw [later] at read
        cases read
      | ok others =>
        rw [later] at read
        cases read
        obtain ⟨readable, same⟩ := ih later
        have one : readSegment disk seg = .ok here := first
        refine ⟨List.forall_mem_cons.mpr ⟨⟨here, one⟩, readable⟩, ?_⟩
        rw [List.flatMap_cons, ← same, storedEvents, one]

theorem replays_of_active {disk : Disk Path} {catalog : Catalog} {events : List CanonicalEvent}
    (read : activeEvents disk catalog.manifest = .ok events) : Replays disk catalog events := by
  intro σ order call session
  obtain ⟨readable, rfl⟩ := segmentsEvents_stored read
  have perm := order.perm catalog.activeSegments
  have replayed := session.replaySegments_readable (some call)
    (order.sort catalog.activeSegments) fun seg member =>
    readable seg (perm.mem_iff.mp member)
  refine ⟨_, _, Multiset.coe_eq_coe.mpr (perm.flatMap_right (storedEvents disk)), replayed,
    session.replayEvents_seen call _, ?_⟩
  rw [session.replayEvents_engine, run_totalEvents]

theorem Serves.replays {world : World} {bag : Multiset CanonicalEvent} (serves : Serves world bag) :
    Replays (freshRecovery world.disk).disk (freshRecovery world.disk).state bag ∧
      ∀ catalog, world.session = some catalog → Replays world.disk catalog bag := by
  obtain ⟨events, read, rfl⟩ := serves.recovered
  refine ⟨replays_of_active read, fun catalog found => ?_⟩
  obtain ⟨live, reads, same⟩ := serves.live catalog found
  rw [← same]
  exact replays_of_active reads

/-- Over any run of commits, compactions, crashes and recoveries, a replay delivers each event of
the taken commits once, from the catalog that is open as from one that is recovered afresh; every
acknowledged commit is taken. -/
theorem replay_delivers_commits {start : World} (blank : start.Blank) {ops : List CatalogOp}
    (proper : Allowed World.step (fun world op => op.Proper world) ops start)
    (few : ops.length < 2 ^ 64) :
    ∃ taken : Fin ops.length → Bool,
      (∀ i : Fin ops.length, (ops.get i).Acknowledged (start.run (ops.take i)) → taken i = true) ∧
      ∀ count ≤ ops.length,
        let world := start.run (ops.take count)
        let bag := takenTotal World.step (fun world op => op.offered world) ops start taken count
        Replays (freshRecovery world.disk).disk (freshRecovery world.disk).state bag ∧
          ∀ catalog, world.session = some catalog → Replays world.disk catalog bag := by
  obtain ⟨taken, acknowledged, held⟩ := catalogLedger.run (blank_holds blank) proper (by omega)
  refine ⟨taken, acknowledged, fun count inside => ?_⟩
  have holds := held count inside
  rw [Nat.zero_add, zero_add] at holds
  exact (serves_of_holds holds).replays

theorem replay_delivers_commits_quote :
    ∃ file, SegmentReader.Reads file [quoteEvent] ∧
      let world := blankWorld.run (quoteRun file)
      Replays (freshRecovery world.disk).disk (freshRecovery world.disk).state {quoteEvent} := by
  obtain ⟨file, reads⟩ := quote_readable
  obtain ⟨taken, acknowledged, replays⟩ :=
    replay_delivers_commits blankWorld_blank (quoteRun_proper reads) (by simp [quoteRun])
  refine ⟨file, reads, ?_⟩
  have delivered := (replays 4 (by simp [quoteRun])).1
  exact quoteRun_total reads acknowledged ▸ delivered

end VectorTick
